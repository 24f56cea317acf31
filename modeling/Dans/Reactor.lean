import Mathlib.Logic.Function.Basic
import Dans.Lib.Lts

/-! The workers of `LinuxCommunicationHandler`: each runs `MonitorAllSockets`, and all of them use one `_events` vector.
    A return of `epoll_wait`, which writes the vector, is a step, and so is the handling of one index. -/

namespace Dans.Reactor

/-- An `epoll_event`: the callback it names and its event mask. -/
structure EpollEvent where
  ptr : Nat
  events : Nat
  deriving DecidableEq, Repr

def kMaxEvents : Nat := 64

/-- Where a worker is in its loop. -/
inductive Pc where
  /-- In `epoll_wait`. -/
  | waiting
  /-- In the `for` loop, in front of index `i`. -/
  | handling (i returnedEventsCount : Nat)
  /-- Behind the `for` loop; `none` after an error of `epoll_wait`. -/
  | checking (returnedEventsCount : Option Nat)
  | returned
  deriving DecidableEq

/-- The point a worker goes to when `i` is the next index. -/
def Pc.loop (i returnedEventsCount : Nat) : Pc :=
  if i < returnedEventsCount then .handling i returnedEventsCount else .checking (some returnedEventsCount)

variable {W : Type}

/-- The handler, its workers, and for the record the events that `epoll_wait` has returned and the callbacks that were
    called. Entries of `_events` are null at first; calling one of those ends the process. -/
structure Sys (W : Type) where
  events : Nat → Option EpollEvent
  destructing : Bool
  pc : W → Pc
  returned : List EpollEvent
  invoked : List EpollEvent
  fault : Bool

inductive Label (W : Type) where
  /-- `epoll_wait` returns these events to a worker; none of them after its timeout. -/
  | wait (w : W) (events : List EpollEvent)
  /-- `epoll_wait` returns an error, `EINTR` or another. -/
  | error (w : W)
  /-- A worker calls the callback of its index. -/
  | handle (w : W)
  /-- A worker comes to the end of its loop body. -/
  | check (w : W)
  /-- The destructor sets `_destructing`. -/
  | destruct

/-- What `epoll_wait` leaves in the vector. -/
def fill (slots : Nat → Option EpollEvent) (events : List EpollEvent) : Nat → Option EpollEvent :=
  fun i => events[i]?.or (slots i)

def Sys.goto [DecidableEq W] (s : Sys W) (w : W) (c : Pc) : Sys W := { s with pc := Function.update s.pc w c }

def Sys.next [DecidableEq W] (s : Sys W) : Label W → Option (Sys W)
  | .wait w events =>
    if s.fault = false ∧ s.pc w = .waiting ∧ events.length ≤ kMaxEvents then
      some { s.goto w (.loop 0 events.length) with events := fill s.events events, returned := s.returned ++ events }
    else none
  | .error w => if s.fault = false ∧ s.pc w = .waiting then some (s.goto w (.checking none)) else none
  | .handle w =>
    match s.fault, s.pc w with
    | false, .handling i count =>
      match s.events i with
      | none => some { s with fault := true }
      | some e => some { s.goto w (.loop (i + 1) count) with invoked := s.invoked ++ [e] }
    | _, _ => none
  | .check w =>
    match s.fault, s.pc w with
    | false, .checking count =>
      some (s.goto w (if s.destructing = true ∧ count ≠ some kMaxEvents then .returned else .waiting))
    | _, _ => none
  | .destruct => if s.fault = false then some { s with destructing := true } else none

/-- The constructor with its workers. -/
def system (W : Type) [DecidableEq W] : Lts (Sys W) (Label W) where
  init :=
    { events := fun _ => none, destructing := false, pc := fun _ => .waiting, returned := [], invoked := [], fault := false }
  next := Sys.next

/-- `LinuxCommunicationHandler(number_of_workers)`. -/
def linuxCommunicationHandler (numberOfWorkers : Nat) : Lts (Sys (Fin numberOfWorkers)) (Label (Fin numberOfWorkers)) :=
  system (Fin numberOfWorkers)

end Dans.Reactor
