import Dans.Lib.MachineInt

/-! `TcpPipe::Pipe` of `common/dstage/proxy_dstage.cc` over the results that `read` and `send` give it, one after
    another. Its counters are `int`s, and `buf` is a place in memory: a `send` that starts in front of it takes what is
    there. The bytes read and the calls of `send` are kept for the record. -/

namespace Dans.TcpPipe
open MachineInt

def kBufSize : Nat := 4096

/-- The `errno` of a call that would block, under both of its names. -/
def EAGAIN : Nat := 11

def EWOULDBLOCK : Nat := EAGAIN

/-- `enum PipeResults`. -/
inductive PipeResults where
  | readFail
  | sendFail
  | tryLater

def PipeResults.value : PipeResults → Int
  | readFail => 0
  | sendFail => 1
  | tryLater => 2

/-- A result of `read`: bytes, `-1` with its `errno`, or `0` at the end of the stream. -/
inductive ReadResult where
  | bytes (chunk : List UInt8)
  | error (errno : Nat)
  | closed
  deriving DecidableEq

/-- A result of `send`: a number of bytes, or `-1` with its `errno`. -/
inductive SendResult where
  | sent (n : Nat)
  | error (errno : Nat)
  deriving DecidableEq

/-- Memory around `buf`, which starts at `0`. -/
abbrev Memory := Int → UInt8

def Memory.bytes (m : Memory) (start : Int) (n : Nat) : List UInt8 := (List.range n).map fun i : Nat => m (start + i)

/-- What `read` leaves in `buf`. -/
def Memory.write (m : Memory) (chunk : List UInt8) : Memory :=
  fun i => if 0 ≤ i then chunk.getD i.toNat (m i) else m i

/-- A call of `send`: the range it is given, the chunk that was read last, its result and the bytes it accepted. -/
structure SendCall where
  start : Int
  length : Int
  chunk : List UInt8
  result : SendResult
  accepted : List UInt8
  deriving DecidableEq

/-- How the sending of a chunk ends: all of it is counted as sent, or `Pipe` returns `-SEND_FAIL`. -/
inductive Round where
  | completed (calls : List SendCall) (totalBytesPiped : Int) (rest : List SendResult)
  | failed (calls : List SendCall)

def Round.cons (call : SendCall) : Round → Round
  | completed calls total rest => completed (call :: calls) total rest
  | failed calls => failed (call :: calls)

/-- The value that `send` returns and the bytes it takes, if the result is one it can give. -/
def SendResult.outcome (m : Memory) (start length : Int) : SendResult → Option (Int × List UInt8)
  | sent n => if 1 ≤ n ∧ (n : Int) ≤ length then some (n, m.bytes start n) else none
  | error _ => some (-1, [])

/-- The loop that sends a chunk. There is no result where the script ends or a counter leaves its range. -/
def sendRound (m : Memory) (chunk : List UInt8) : List SendResult → Int → Int → Int → Option Round
  | [], _, _, _ => none
  | r :: rest, bytesRead, bytesSentThisRound, totalBytesPiped => do
    let (bytesSent, accepted) ← r.outcome m bytesSentThisRound bytesRead
    let call : SendCall := ⟨bytesSentThisRound, bytesRead, chunk, r, accepted⟩
    if bytesSent = -1 ∧ r ≠ .error EAGAIN then some (.failed [call])
    else
      let totalBytesPiped ← checked (totalBytesPiped + bytesSent)
      let bytesRead ← checked (bytesRead - bytesSent)
      let bytesSentThisRound ← checked (bytesSentThisRound + bytesSent)
      if bytesRead = 0 then some (.completed [call] totalBytesPiped rest)
      else (sendRound m chunk rest bytesRead bytesSentThisRound totalBytesPiped).map (.cons call)

/-- What a call of `Pipe` returned, the bytes it read and its calls of `send`. -/
structure Piped where
  ret : Int
  read : List UInt8
  calls : List SendCall
  deriving DecidableEq

/-- The outer loop, from a point where `totalBytesPiped` bytes are counted. -/
def pipeLoop : List ReadResult → List SendResult → Memory → Int → Option Piped
  | [], _, _, _ => none
  | .error errno :: _, _, _, totalBytesPiped =>
    if errno = EAGAIN then
      some ⟨if totalBytesPiped = 0 then -PipeResults.tryLater.value else totalBytesPiped, [], []⟩
    else if errno = EWOULDBLOCK then some ⟨totalBytesPiped, [], []⟩
    else some ⟨-PipeResults.readFail.value, [], []⟩
  | .closed :: _, _, _, _ => some ⟨0, [], []⟩
  | .bytes chunk :: reads, sends, m, totalBytesPiped =>
    if 1 ≤ chunk.length ∧ chunk.length ≤ kBufSize then do
      let m := m.write chunk
      match ← sendRound m chunk sends chunk.length 0 totalBytesPiped with
      | .failed calls => some ⟨-PipeResults.sendFail.value, chunk, calls⟩
      | .completed calls totalBytesPiped rest =>
        (pipeLoop reads rest m totalBytesPiped).map fun p => ⟨p.ret, chunk ++ p.read, calls ++ p.calls⟩
    else none

/-- `Pipe` on these results of `read` and `send`, with this memory before it; `none` if it does not return. -/
def pipe (reads : List ReadResult) (sends : List SendResult) (m : Memory) : Option Piped := pipeLoop reads sends m 0

/-- The bytes that `send` accepted. -/
def accepted (calls : List SendCall) : List UInt8 := calls.flatMap (·.accepted)

end Dans.TcpPipe
