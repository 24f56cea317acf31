import Dans.Lib.Loop
import Dans.Pipe

/-! The calls of `done` in `linux_communication_handler.cc`: `Connect2`, `CheckForSocketErrors`, `MonitorSocketReady` and
    `ServeSocketReady`, over the answers of `connect`, `getsockopt` and `accept4`; and `ConnectScheduler::ConnectCallback`
    of `client_connect_handler.cc`, which `done` is bound to in the client. -/

namespace Dans.CommunicationHandler
open TcpPipe (EAGAIN EWOULDBLOCK)

def EMFILE : Nat := 24
def EINPROGRESS : Nat := 115

def EPOLLIN : UInt32 := 0x001
def EPOLLOUT : UInt32 := 0x004
def EPOLLERR : UInt32 := 0x008
def EPOLLHUP : UInt32 := 0x010
def EPOLLRDHUP : UInt32 := 0x2000
def EPOLLONESHOT : UInt32 := 0x40000000

/-- `ReadyFor`. Members that an initialiser does not name are zero. -/
structure ReadyFor where
  inp : Bool
  out : Bool
  events : UInt32 := 0
  err : Int := 0
  deriving DecidableEq, Repr

/-- A call of a `CallBack2`. -/
structure Done where
  soc : Int
  readyFor : ReadyFor
  deriving DecidableEq, Repr

/-- What `epoll_ctl` is given: the socket that the callback is bound to, and the events it waits for. -/
structure Registration where
  soc : Int
  events : UInt32
  deriving DecidableEq, Repr

/-! ### `Connect` -/

/-- What `connect` returns: 0, or -1 with its `errno`. -/
inductive ConnectResult where
  | success
  | error (errno : Nat)
  deriving DecidableEq, Repr

/-- `Connect2` with its new socket: the calls of `done` it makes, and the callback it leaves in the epoll set. -/
def connect2 (soc : Int) : ConnectResult → List Done × Option Registration
  | .error errno =>
    if errno ≠ EINPROGRESS then ([⟨soc, { inp := false, out := false }⟩], none)
    else ([], some ⟨soc, EPOLLERR ||| EPOLLRDHUP ||| EPOLLHUP ||| EPOLLIN ||| EPOLLOUT ||| EPOLLONESHOT⟩)
  | .success => ([⟨soc, { inp := false, out := false }⟩], none)

/-- `CheckForSocketErrors`; there is no value where `getsockopt` fails. -/
def checkForSocketErrors (soError : Option Int) : Int := soError.getD 0

/-- `MonitorSocketReady`. -/
def monitorSocketReady (soc : Int) (soError : Option Int) (events : UInt32) : Done :=
  let err := checkForSocketErrors soError
  if err ≠ 0 then ⟨soc, ⟨false, false, events, err⟩⟩
  else ⟨soc, ⟨events &&& EPOLLIN ≠ 0, events &&& EPOLLOUT ≠ 0, events, err⟩⟩

/-- The ways through `ConnectScheduler::ConnectCallback`. -/
inductive Connected where
  | failed
  /-- `CHECK(ready_for.out)` ends the process. -/
  | checkFailed
  /-- The job goes to the request stage. -/
  | forwarded
  | dropped
  | purged
  deriving DecidableEq, Repr

def connectCallback (isPurged : Bool) (soc : Int) (readyFor : ReadyFor) : Connected :=
  if readyFor.err ≠ 0 then .failed
  else if readyFor.out = false then .checkFailed
  else if isPurged = false ∧ 0 ≤ soc then .forwarded
  else if soc < 0 then .dropped
  else .purged

/-! ### `Serve` -/

/-- What `accept4` looks at: the connections that are pending and the descriptors that the process may still use. With
    neither left, its error is `EMFILE` if it reserves the descriptor first. `accepted` is for the record. -/
structure Kernel (C : Type) where
  reservesFirst : Bool
  backlog : List C
  descriptors : List Int
  accepted : List (C × Int)
  deriving DecidableEq, Repr

variable {C : Type}

def Kernel.accept4 (k : Kernel C) : Except Nat Int × Kernel C :=
  match k.backlog, k.descriptors with
  | c :: backlog, soc :: descriptors =>
    (.ok soc, { k with backlog := backlog, descriptors := descriptors, accepted := k.accepted ++ [(c, soc)] })
  | _ :: _, [] => (.error EMFILE, k)
  | [], _ :: _ => (.error EAGAIN, k)
  | [], [] => (.error (if k.reservesFirst then EMFILE else EAGAIN), k)

/-- The loop of `ServeSocketReady`: the kernel, and the sockets that `done` was called with. -/
structure Accepting (C : Type) where
  kernel : Kernel C
  done : List Int
  deriving DecidableEq, Repr

/-- A turn of the loop: only an empty backlog breaks it, every other error is logged. -/
def Accepting.turn (a : Accepting C) : Accepting C ⊕ Accepting C :=
  match a.kernel.accept4 with
  | (.error errno, k) =>
    if errno = EAGAIN ∨ errno = EWOULDBLOCK then .inr { a with kernel := k } else .inl { a with kernel := k }
  | (.ok clientSoc, k) => .inl ⟨k, a.done ++ [clientSoc]⟩

/-- What `ServeSocketReady` leaves: the registration made by `AddServerSocket`, and the loop where it ended. -/
structure Served (C : Type) where
  registration : Option Registration
  loop : Accepting C
  deriving DecidableEq, Repr

/-- `ServeSocketReady`, for at most `fuel` calls of `accept4`. -/
def serveSocketReady (fuel : Nat) (soc : Int) (events : UInt32) (k : Kernel C) : Option (Served C) :=
  if events &&& EPOLLIN = 0 then some ⟨none, ⟨k, []⟩⟩
  else (Loop.run Accepting.turn fuel ⟨k, []⟩).map fun a =>
    ⟨some ⟨soc, EPOLLERR ||| EPOLLRDHUP ||| EPOLLHUP ||| EPOLLONESHOT ||| EPOLLIN⟩, a⟩

end Dans.CommunicationHandler
