import Mathlib.Data.List.Infix
import Dans.Pipe

/-! What `Pipe` forwards. A `send` that would block is counted as `-1` bytes sent, which moves the next `send` one byte
    back and takes one byte from the total: without such a result the bytes accepted are the bytes read, and with one the
    stream is not what was read. -/

namespace Dans.TcpPipe
open MachineInt

/-! ### The loops, case by case -/

/-- The sending of a chunk, one result of `send` after another. -/
inductive Sends (m : Memory) (chunk : List UInt8) : Int → Int → Int → List SendResult → Round → Prop where
  | fail {left start total : Int} {errno : Nat} {rest : List SendResult} (hard : errno ≠ EAGAIN) :
      Sends m chunk left start total (.error errno :: rest) (.failed [⟨start, left, chunk, .error errno, []⟩])
  | again {left start total : Int} {rest : List SendResult} {round : Round}
      (more : Sends m chunk (left + 1) (start - 1) (total - 1) rest round) :
      Sends m chunk left start total (.error EAGAIN :: rest) (round.cons ⟨start, left, chunk, .error EAGAIN, []⟩)
  | last {left start total : Int} {n : Nat} {rest : List SendResult} (all : (n : Int) = left) :
      Sends m chunk left start total (.sent n :: rest)
        (.completed [⟨start, left, chunk, .sent n, m.bytes start n⟩] (total + n) rest)
  | more {left start total : Int} {n : Nat} {rest : List SendResult} {round : Round} (short : (n : Int) < left)
      (more : Sends m chunk (left - n) (start + n) (total + n) rest round) :
      Sends m chunk left start total (.sent n :: rest) (round.cons ⟨start, left, chunk, .sent n, m.bytes start n⟩)

variable {m : Memory} {chunk : List UInt8} {sends rest : List SendResult} {left start total : Int} {round : Round}

/-- A result that is counted: the chunk is done, or the loop goes on with what is left. -/
theorem sendRound_counted {r : SendResult} {k : Int} {bytes : List UInt8}
    (outcome : r.outcome m start left = some (k, bytes)) (counted : ¬(k = -1 ∧ r ≠ .error EAGAIN))
    (h : sendRound m chunk (r :: rest) left start total = some round) :
    left - k = 0 ∧ round = .completed [⟨start, left, chunk, r, bytes⟩] (total + k) rest ∨
      left - k ≠ 0 ∧ ∃ round', sendRound m chunk rest (left - k) (start + k) (total + k) = some round' ∧
        round = round'.cons ⟨start, left, chunk, r, bytes⟩ := by
  simp only [sendRound, outcome, Option.bind_eq_bind, Option.bind_some, if_neg counted] at h
  obtain ⟨t, ht, h⟩ := Option.bind_eq_some_iff.mp h
  obtain ⟨l, hl, h⟩ := Option.bind_eq_some_iff.mp h
  obtain ⟨s, hs, h⟩ := Option.bind_eq_some_iff.mp h
  obtain ⟨-, rfl⟩ := checked_eq_some.mp ht
  obtain ⟨-, rfl⟩ := checked_eq_some.mp hl
  obtain ⟨-, rfl⟩ := checked_eq_some.mp hs
  split at h
  · cases h
    exact Or.inl ⟨‹_›, rfl⟩
  · obtain ⟨round', hround, rfl⟩ := Option.map_eq_some_iff.mp h
    exact Or.inr ⟨‹_›, round', hround, rfl⟩

theorem sends_of_sendRound (hleft : 0 < left) (h : sendRound m chunk sends left start total = some round) :
    Sends m chunk left start total sends round := by
  induction sends generalizing left start total round with
  | nil => cases h
  | cons r rest ih =>
    cases r with
    | error errno =>
      rcases eq_or_ne errno EAGAIN with rfl | hard
      · rcases sendRound_counted rfl (by simp) h with ⟨hzero, -⟩ | ⟨-, round', hround, rfl⟩
        · omega
        · exact .again (ih (by omega) hround)
      · simp only [sendRound, SendResult.outcome, Option.bind_eq_bind, Option.bind_some] at h
        rw [if_pos ⟨trivial, by simpa using hard⟩] at h
        cases h
        exact .fail hard
    | sent n =>
      by_cases hn : 1 ≤ n ∧ (n : Int) ≤ left
      · have outcome : (SendResult.sent n).outcome m start left = some ((n : Int), m.bytes start n) := if_pos hn
        rcases sendRound_counted outcome (fun hk => by omega) h with ⟨hzero, rfl⟩ | ⟨hne, round', hround, rfl⟩
        · exact .last (by omega)
        · exact .more (by omega) (ih (by omega) hround)
      · simp [sendRound, SendResult.outcome, hn] at h

/-- How a call of `Pipe` ends. -/
inductive Ending where
  | wouldBlock
  | readFail
  | closed
  | sendFail
  deriving DecidableEq

/-- What `Pipe` returns, given its count of bytes. -/
def Ending.ret (total : Int) : Ending → Int
  | wouldBlock => if total = 0 then -PipeResults.tryLater.value else total
  | readFail => -PipeResults.readFail.value
  | closed => 0
  | sendFail => -PipeResults.sendFail.value

/-- The outer loop, one result of `read` after another. -/
inductive Pipes : List ReadResult → List SendResult → Memory → Int → Ending → Piped → Prop where
  | wouldBlock {reads : List ReadResult} {sends : List SendResult} {m : Memory} {total : Int} :
      Pipes (.error EAGAIN :: reads) sends m total .wouldBlock ⟨Ending.wouldBlock.ret total, [], []⟩
  | readFail {errno : Nat} {reads : List ReadResult} {sends : List SendResult} {m : Memory} {total : Int}
      (hard : errno ≠ EAGAIN) : Pipes (.error errno :: reads) sends m total .readFail ⟨Ending.readFail.ret total, [], []⟩
  | closed {reads : List ReadResult} {sends : List SendResult} {m : Memory} {total : Int} :
      Pipes (.closed :: reads) sends m total .closed ⟨Ending.closed.ret total, [], []⟩
  | sendFail {chunk : List UInt8} {reads : List ReadResult} {sends : List SendResult} {m : Memory} {total : Int}
      {calls : List SendCall} (nonempty : 0 < chunk.length)
      (round : Sends (m.write chunk) chunk chunk.length 0 total sends (.failed calls)) :
      Pipes (.bytes chunk :: reads) sends m total .sendFail ⟨Ending.sendFail.ret total, chunk, calls⟩
  | round {chunk : List UInt8} {reads : List ReadResult} {sends rest : List SendResult} {m : Memory} {total total' : Int}
      {calls : List SendCall} {ending : Ending} {p : Piped} (nonempty : 0 < chunk.length)
      (round : Sends (m.write chunk) chunk chunk.length 0 total sends (.completed calls total' rest))
      (more : Pipes reads rest (m.write chunk) total' ending p) :
      Pipes (.bytes chunk :: reads) sends m total ending ⟨p.ret, chunk ++ p.read, calls ++ p.calls⟩

variable {reads : List ReadResult} {p : Piped}

theorem pipes_of_pipeLoop (h : pipeLoop reads sends m total = some p) : ∃ ending, Pipes reads sends m total ending p := by
  induction reads generalizing sends m total p with
  | nil => cases h
  | cons r reads ih =>
    cases r with
    | closed =>
      cases h
      exact ⟨_, .closed⟩
    | error errno =>
      rcases eq_or_ne errno EAGAIN with rfl | hard
      · simp only [pipeLoop, if_true] at h
        cases h
        exact ⟨_, .wouldBlock⟩
      · have hard' : errno ≠ EWOULDBLOCK := hard
        simp only [pipeLoop, if_neg hard, if_neg hard'] at h
        cases h
        exact ⟨_, .readFail hard⟩
    | bytes chunk =>
      simp only [pipeLoop] at h
      split at h
      · next hchunk =>
        obtain ⟨round, hround, h⟩ := Option.bind_eq_some_iff.mp h
        have hsends := sends_of_sendRound (by omega) hround
        cases round with
        | failed calls =>
          cases h
          exact ⟨_, .sendFail hchunk.1 hsends⟩
        | completed calls total' rest =>
          obtain ⟨p, hp, rfl⟩ := Option.map_eq_some_iff.mp h
          obtain ⟨ending, hpipes⟩ := ih hp
          exact ⟨ending, .round hchunk.1 hsends hpipes⟩
      · cases h

/-! ### Counting -/

def SendCall.isAgain (call : SendCall) : Bool := decide (call.result = .error EAGAIN)

/-- `send` failed with an error other than would-block. -/
def SendCall.Fails (call : SendCall) : Prop := ∃ errno, call.result = .error errno ∧ errno ≠ EAGAIN

def Round.calls : Round → List SendCall
  | completed calls _ _ => calls
  | failed calls => calls

@[simp] theorem Round.calls_cons (call : SendCall) (round : Round) : (round.cons call).calls = call :: round.calls := by
  cases round <;> rfl

@[simp] theorem accepted_cons (call : SendCall) (calls : List SendCall) :
    accepted (call :: calls) = call.accepted ++ accepted calls := rfl

@[simp] theorem accepted_append (calls calls' : List SendCall) :
    accepted (calls ++ calls') = accepted calls ++ accepted calls' := by simp [accepted]

@[simp] theorem Memory.length_bytes (m : Memory) (start : Int) (n : Nat) : (m.bytes start n).length = n := by
  simp [Memory.bytes]

/-- A chunk that is done is counted once, with one byte more accepted for each would-block; a chunk that is not done
    ends with a call that failed. -/
def Round.Counts (left total : Int) : Round → Prop
  | completed calls total' _ => total' = total + left ∧
      ((accepted calls).length : Int) = left + calls.countP SendCall.isAgain ∧ ∀ call ∈ calls, ¬call.Fails
  | failed calls => ∃ call ∈ calls, call.Fails

theorem Round.Counts.cons {call : SendCall} {k : Int} (h : round.Counts (left - k) (total + k))
    (hlen : (call.accepted.length : Int) = k + if call.isAgain then 1 else 0) (hfails : ¬call.Fails) :
    (round.cons call).Counts left total := by
  cases round with
  | failed calls =>
    obtain ⟨c, hc, hfail⟩ := h
    exact ⟨c, List.mem_cons_of_mem _ hc, hfail⟩
  | completed calls total' rest =>
    obtain ⟨htotal, haccepted, hall⟩ := h
    refine ⟨by omega, ?_, List.forall_mem_cons.mpr ⟨hfails, hall⟩⟩
    rw [accepted_cons, List.length_append, List.countP_cons]
    cases hagain : call.isAgain <;> simp only [hagain, if_true, if_false, Bool.false_eq_true] at hlen ⊢ <;> omega

theorem Sends.counts (h : Sends m chunk left start total sends round) : round.Counts left total := by
  induction h with
  | @fail left start total errno rest hard => exact ⟨_, List.mem_singleton_self _, errno, rfl, hard⟩
  | @again left start total rest round more ih =>
    refine Round.Counts.cons (k := -1) (by simpa [← Int.sub_eq_add_neg] using ih) (by simp [SendCall.isAgain]) ?_
    rintro ⟨errno, herr, hard⟩
    cases herr
    exact hard rfl
  | last all =>
    refine ⟨by omega, by simp [accepted, SendCall.isAgain, all], ?_⟩
    simp [SendCall.Fails]
  | more short more ih =>
    refine ih.cons (by simp [SendCall.isAgain]) ?_
    rintro ⟨errno, herr, -⟩
    cases herr

/-- `send` failed in this call of `Pipe`. -/
def Piped.SendFails (p : Piped) : Prop := ∃ call ∈ p.calls, call.Fails

/-- No `send` of this call of `Pipe` would block. -/
def Piped.NoAgain (p : Piped) : Prop := ∀ call ∈ p.calls, call.isAgain = false

instance (p : Piped) : Decidable p.NoAgain := inferInstanceAs (Decidable (∀ call ∈ p.calls, call.isAgain = false))

variable {ending : Ending}

theorem Pipes.ret (h : Pipes reads sends m total ending p) (hfail : ending ≠ .sendFail) :
    p.ret = ending.ret (total + p.read.length) := by
  induction h with
  | wouldBlock | readFail _ | closed => simp
  | sendFail _ _ => exact absurd rfl hfail
  | @round chunk reads sends rest m total total' calls ending p nonempty round more ih =>
    have hcounts : total' = total + chunk.length := round.counts.1
    rw [ih hfail, hcounts, List.length_append]
    push_cast
    rw [Int.add_assoc]

theorem Pipes.ret_sendFail (h : Pipes reads sends m total .sendFail p) : p.ret = -PipeResults.sendFail.value := by
  generalize hending : Ending.sendFail = ending at h
  induction h with
  | wouldBlock | readFail _ | closed => cases hending
  | sendFail _ _ => rfl
  | round _ _ _ ih => exact ih hending

/-- A positive number returned is the number of bytes read. -/
theorem Pipes.ret_pos (h : Pipes reads sends m 0 ending p) (hpos : 0 < p.ret) :
    ending = .wouldBlock ∧ p.ret = p.read.length := by
  have hret := h.ret
  cases ending with
  | sendFail =>
    rw [h.ret_sendFail] at hpos
    cases hpos
  | readFail | closed =>
    rw [hret (by simp)] at hpos
    cases hpos
  | wouldBlock =>
    rw [hret (by simp), Int.zero_add, Ending.ret] at hpos ⊢
    split at hpos
    · cases hpos
    · next hne => exact ⟨rfl, if_neg hne⟩

/-- Unless `send` fails, it accepts the bytes read and one byte more for each would-block. -/
theorem Pipes.length_accepted (h : Pipes reads sends m total ending p) (hfail : ending ≠ .sendFail) :
    (accepted p.calls).length = p.read.length + p.calls.countP SendCall.isAgain := by
  induction h with
  | wouldBlock | readFail _ | closed => rfl
  | sendFail _ _ => exact absurd rfl hfail
  | @round chunk reads sends rest m total total' calls ending p nonempty round more ih =>
    have hcounts : ((accepted calls).length : Int) = chunk.length + calls.countP SendCall.isAgain := round.counts.2.1
    have hrest := ih hfail
    rw [accepted_append, List.length_append, List.length_append, List.countP_append]
    omega

theorem countP_isAgain {calls : List SendCall} (h : ∀ call ∈ calls, call.isAgain = false) :
    calls.countP SendCall.isAgain = 0 := List.countP_eq_zero.mpr fun call hcall => by simp [h call hcall]

theorem Pipes.length_of_noAgain (h : Pipes reads sends m total ending p) (hfail : ending ≠ .sendFail) (hagain : p.NoAgain) :
    (accepted p.calls).length = p.read.length := by
  rw [h.length_accepted hfail, countP_isAgain hagain, Nat.add_zero]

theorem Pipes.sendFails_iff (h : Pipes reads sends m total ending p) : p.SendFails ↔ ending = .sendFail := by
  induction h with
  | wouldBlock | readFail _ | closed => simp [Piped.SendFails]
  | sendFail _ round => exact iff_of_true round.counts rfl
  | @round chunk reads sends rest m total total' calls ending p nonempty round more ih =>
    have hcalls : ∀ call ∈ calls, ¬call.Fails := round.counts.2.2
    rw [← ih]
    constructor
    · rintro ⟨call, hcall, hfails⟩
      rcases List.mem_append.mp hcall with hcall | hcall
      · exact absurd hfails (hcalls call hcall)
      · exact ⟨call, hcall, hfails⟩
    · rintro ⟨call, hcall, hfails⟩
      exact ⟨call, List.mem_append_right _ hcall, hfails⟩

/-- An error of `send` other than would-block. -/
def SendResult.hard : SendResult → Bool
  | sent _ => false
  | error errno => errno != EAGAIN

/-- A chunk leaves results for those after it, or ends with an error of `send`. -/
def Round.Leaves (sends : List SendResult) : Round → Prop
  | completed _ _ rest => rest ⊆ sends
  | failed _ => ∃ r ∈ sends, r.hard = true

theorem Sends.leaves (h : Sends m chunk left start total sends round) : round.Leaves sends := by
  have hcons : ∀ {call : SendCall} {r : SendResult} {sends : List SendResult} {round : Round}, round.Leaves sends →
      (round.cons call).Leaves (r :: sends) := by
    intro call r sends round h
    cases round with
    | completed _ _ rest => exact List.Subset.trans h (List.subset_cons_self _ _)
    | failed _ =>
      obtain ⟨r', hr', hhard⟩ := h
      exact ⟨r', List.mem_cons_of_mem _ hr', hhard⟩
  induction h with
  | fail hard => exact ⟨_, List.mem_cons_self, bne_iff_ne.mpr hard⟩
  | last _ => exact List.subset_cons_self _ _
  | again _ ih | more _ _ ih => exact hcons ih

theorem Pipes.hard (h : Pipes reads sends m total .sendFail p) : ∃ r ∈ sends, r.hard = true := by
  generalize hending : Ending.sendFail = ending at h
  induction h with
  | wouldBlock | readFail _ | closed => cases hending
  | sendFail _ round => exact round.leaves
  | round _ round _ ih =>
    obtain ⟨r, hr, hhard⟩ := ih hending
    exact ⟨r, round.leaves hr, hhard⟩

/-! ### The last `read` -/

def ReadResult.isBytes : ReadResult → Bool
  | bytes _ => true
  | error _ | closed => false

/-- The result of `read` behind the bytes, at which the outer loop returns unless a `send` has failed before. -/
def stop (reads : List ReadResult) : Option ReadResult := reads.find? fun r => !r.isBytes

/-- The result of `read` that goes with an ending. -/
def Ending.Reads : Ending → Option ReadResult → Prop
  | wouldBlock, r => r = some (.error EAGAIN)
  | readFail, r => ∃ errno, r = some (.error errno) ∧ errno ≠ EAGAIN
  | closed, r => r = some .closed
  | sendFail, _ => True

theorem Pipes.stopped (h : Pipes reads sends m total ending p) : ending.Reads (stop reads) := by
  induction h with
  | wouldBlock => rfl
  | readFail hard => exact ⟨_, rfl, hard⟩
  | closed => rfl
  | sendFail _ _ => trivial
  | round _ _ _ ih => exact ih

/-! ### The stream -/

/-- The range given to `send` lies in the bytes of the chunk just read. -/
def SendCall.Inside (call : SendCall) : Prop :=
  0 ≤ call.start ∧ 0 ≤ call.length ∧ call.start + call.length ≤ call.chunk.length

theorem SendCall.inside_of (hstart : 0 ≤ start) (hleft : 0 ≤ left) (hend : start + left = chunk.length)
    (result : SendResult) (bytes : List UInt8) : SendCall.Inside ⟨start, left, chunk, result, bytes⟩ :=
  ⟨hstart, hleft, Int.le_of_eq hend⟩

theorem Memory.bytes_write (m : Memory) {k n : Nat} (h : k + n ≤ chunk.length) :
    (m.write chunk).bytes k n = (chunk.drop k).take n := by
  refine List.ext_getElem (by simp; omega) fun i hi _ => ?_
  rw [Memory.length_bytes] at hi
  have hnonneg : (0 : Int) ≤ k + i := by omega
  have hnat : ((k : Int) + i).toNat = k + i := by omega
  simp only [Memory.bytes, Memory.write, List.getElem_map, List.getElem_range, if_pos hnonneg, hnat, List.getElem_take,
    List.getElem_drop]
  rw [List.getD_eq_getElem?_getD, List.getElem?_eq_getElem (by omega), Option.getD_some]

/-- Without a would-block each `send` continues where the last one stopped. -/
theorem Sends.inOrder (h : Sends (m.write chunk) chunk left start total sends round)
    (hagain : ∀ call ∈ round.calls, call.isAgain = false) {k : Nat} (hstart : start = k) (hleft : 0 ≤ left)
    (hend : start + left = chunk.length) :
    (∀ call ∈ round.calls, call.Inside) ∧ accepted round.calls <+: chunk.drop k := by
  induction h generalizing k with
  | @fail left start total errno rest hard =>
    refine ⟨fun call hcall => ?_, List.nil_prefix⟩
    rw [List.mem_singleton.mp hcall]
    exact SendCall.inside_of (by omega) hleft hend _ _
  | @again left start total rest round more ih => simp [SendCall.isAgain] at hagain
  | @last left start total n rest all =>
    have hbytes : (m.write chunk).bytes start n = chunk.drop k := by
      rw [hstart, Memory.bytes_write m (by omega)]
      exact List.take_of_length_le (by simp; omega)
    refine ⟨fun call hcall => ?_, by simp [Round.calls, accepted, hbytes]⟩
    rw [List.mem_singleton.mp hcall]
    exact SendCall.inside_of (by omega) hleft hend _ _
  | @more left start total n rest round short more ih =>
    rw [Round.calls_cons] at hagain ⊢
    obtain ⟨-, hagain⟩ := List.forall_mem_cons.mp hagain
    obtain ⟨hinside, hprefix⟩ := ih hagain (k := k + n) (by omega) (by omega) (by omega)
    refine ⟨List.forall_mem_cons.mpr ⟨SendCall.inside_of (by omega) hleft hend _ _, hinside⟩, ?_⟩
    have hbytes : (m.write chunk).bytes start n = (chunk.drop k).take n := by
      rw [hstart, Memory.bytes_write m (by omega)]
    have hsplit : (chunk.drop k).take n ++ chunk.drop (k + n) = chunk.drop k := by
      rw [← List.drop_drop, List.take_append_drop]
    have hwhole := (List.prefix_append_right_inj ((chunk.drop k).take n)).mpr hprefix
    rw [hsplit] at hwhole
    rw [accepted_cons, hbytes]
    exact hwhole

/-- What a call of `Pipe` should do with the bytes it reads. -/
structure Piped.Forwards (p : Piped) : Prop where
  inside : ∀ call ∈ p.calls, call.Inside
  stream : accepted p.calls <+: p.read
  whole : ¬p.SendFails → accepted p.calls = p.read
  count : 0 < p.ret → p.ret = (accepted p.calls).length

theorem Pipes.inOrder (h : Pipes reads sends m total ending p) (hagain : p.NoAgain) :
    (∀ call ∈ p.calls, call.Inside) ∧ accepted p.calls <+: p.read := by
  induction h with
  | wouldBlock | readFail _ | closed => exact ⟨by simp, List.prefix_rfl⟩
  | @sendFail chunk reads sends m total calls nonempty round =>
    exact round.inOrder hagain (k := 0) rfl (by omega) (by omega)
  | @round chunk reads sends rest m total total' calls ending p nonempty round more ih =>
    obtain ⟨hcalls, hrest⟩ := List.forall_mem_append.mp hagain
    obtain ⟨hinside, hprefix⟩ := round.inOrder hcalls (k := 0) rfl (by omega) (by omega)
    obtain ⟨hinside', hprefix'⟩ := ih hrest
    refine ⟨List.forall_mem_append.mpr ⟨hinside, hinside'⟩, ?_⟩
    -- The chunk is done, so what was accepted of it is all of it.
    have hlen : ((accepted calls).length : Int) = chunk.length + calls.countP SendCall.isAgain := round.counts.2.1
    have hnone := countP_isAgain hcalls
    have hwhole : accepted calls = chunk := hprefix.eq_of_length (by simp only [Round.calls, List.drop_zero]; omega)
    rw [accepted_append, hwhole]
    exact (List.prefix_append_right_inj _).mpr hprefix'

/-- Where no `send` would block, `Pipe` forwards the stream unchanged; and where no `send` fails otherwise, it does so
    only there. -/
theorem pipe_forwards (h : pipe reads sends m = some p) :
    (p.NoAgain → p.Forwards) ∧ (¬p.SendFails → (p.Forwards ↔ p.NoAgain)) := by
  obtain ⟨ending, hpipes⟩ := pipes_of_pipeLoop h
  have hforwards : p.NoAgain → p.Forwards := by
    intro hagain
    obtain ⟨hinside, hstream⟩ := hpipes.inOrder hagain
    have hlen : ¬p.SendFails → (accepted p.calls).length = p.read.length := fun hfails =>
      hpipes.length_of_noAgain (fun hend => hfails (hpipes.sendFails_iff.mpr hend)) hagain
    refine ⟨hinside, hstream, fun hfails => hstream.eq_of_length (hlen hfails), fun hpos => ?_⟩
    obtain ⟨rfl, hret⟩ := hpipes.ret_pos hpos
    rw [hret, hlen fun hfails => by cases hpipes.sendFails_iff.mp hfails]
  refine ⟨hforwards, fun hfails => ⟨fun hf => ?_, hforwards⟩⟩
  have hlen := hpipes.length_accepted fun hend => hfails (hpipes.sendFails_iff.mpr hend)
  rw [hf.whole hfails] at hlen
  have hnone : p.calls.countP SendCall.isAgain = 0 := by omega
  intro call hcall
  simpa using List.countP_eq_zero.mp hnone call hcall

/-- Two chunks, the first in two parts, and then nothing more to read. -/
theorem pipe_forwards_short_write : ∃ p, pipe [.bytes [1, 2, 3], .bytes [4], .error EAGAIN] [.sent 2, .sent 1, .sent 1]
    (fun _ => 9) = some p ∧ p.ret = 4 ∧ p.Forwards := by
  have hpipe : pipe [.bytes [1, 2, 3], .bytes [4], .error EAGAIN] [.sent 2, .sent 1, .sent 1] (fun _ => 9) =
      some ⟨4, [1, 2, 3, 4], [⟨0, 3, [1, 2, 3], .sent 2, [1, 2]⟩, ⟨2, 1, [1, 2, 3], .sent 1, [3]⟩,
        ⟨0, 1, [4], .sent 1, [4]⟩]⟩ := by decide
  exact ⟨_, hpipe, rfl, (pipe_forwards hpipe).1 (by decide)⟩

/-- The first `send` would block: the second starts one byte in front of the chunk, what is accepted is not what was
    read, and the number returned is not the number of bytes accepted. -/
theorem pipe_of_blocked_send : ∃ p, pipe [.bytes [1, 2], .error EAGAIN] [.error EAGAIN, .sent 3] (fun _ => 9) = some p ∧
    p.calls = [⟨0, 2, [1, 2], .error EAGAIN, []⟩, ⟨-1, 3, [1, 2], .sent 3, [9, 1, 2]⟩] ∧
    p.read = [1, 2] ∧ accepted p.calls = [9, 1, 2] ∧ p.ret = 2 ∧ ¬p.Forwards := by
  have hpipe : pipe [.bytes [1, 2], .error EAGAIN] [.error EAGAIN, .sent 3] (fun _ => 9) =
      some ⟨2, [1, 2], [⟨0, 2, [1, 2], .error EAGAIN, []⟩, ⟨-1, 3, [1, 2], .sent 3, [9, 1, 2]⟩]⟩ := by decide
  refine ⟨_, hpipe, rfl, rfl, rfl, rfl, fun hf => ?_⟩
  exact absurd (hf.count (by decide)) (by decide)

end Dans.TcpPipe
