import Mathlib.Algebra.Group.Int.Defs
import Mathlib.Algebra.Group.Nat.Defs
import Mathlib.Data.Fintype.Defs
import Dans.Job

/-! The jobs of the client chain, from `common/dstage/job_types.h`: what a job carries in each of the three
    stages, and how the response handler puts an object together from what it reads. A callback is a value of
    a type `D`, a `PurgeState` and a socket are numbers. -/

namespace Dans

variable {D : Type}

/-- `struct Protocol`, the header that a server sends. -/
structure Protocol where
  type : Int
  priority : Int
  objectId : Int
  startIdx : Int
  sizeBytes : Int
  deriving DecidableEq, Repr

namespace Protocol

/-! The values of `type` that the results speak of. -/

def REQUEST_ACCEPT : Int := 11
def REQUEST_REJECT : Int := 12

end Protocol

structure ConnectData (D : Type) where
  ipAddresses : List String
  objectId : Int
  done : D
  deriving DecidableEq

structure ConnectDataInternal (D : Type) where
  ip : String
  objectId : Int
  done : D
  purgeState : Nat
  deriving DecidableEq

structure RequestData (D : Type) where
  connection : Int
  objectId : Int
  done : D
  purgeState : Nat
  deriving DecidableEq

structure ResponseData (D : Type) where
  connection : Int
  objectId : Int
  index : Nat
  object : Option (List UInt8)
  done : D
  purgeState : Nat
  deriving DecidableEq

/-! ### Reassembly -/

/-- An `int` that is stored in an `unsigned`. -/
def toUnsigned (i : Int) : Nat := (i % 2 ^ 32).toNat

namespace ResponseData

/-- `object->size()`. -/
def size (d : ResponseData D) : Nat := (d.object.getD []).length

/-- The object and the index that a header gives. -/
def begin (d : ResponseData D) (header : Protocol) : ResponseData D :=
  { d with object := some (List.replicate header.sizeBytes.toNat 0), index := toUnsigned header.startIdx }

/-- `read` has put `bytes` into the object at the index. -/
def store (d : ResponseData D) (bytes : List UInt8) : ResponseData D :=
  { d with
    object := d.object.map fun o => o.take d.index ++ bytes ++ o.drop (d.index + bytes.length)
    index := (d.index + bytes.length) % 2 ^ 32 }

/-- `object->size() - index`, the count of a `read`, in 64 bits. -/
def count (d : ResponseData D) : Nat := (d.size + 2 ^ 64 - d.index) % 2 ^ 64

/-- The test for completion. -/
def complete (d : ResponseData D) : Bool := d.index == d.size

end ResponseData

/-! ### Jobs of the three stages -/

inductive Stage where
  | connect
  | request
  | response
  deriving DecidableEq, Repr

instance : Fintype Stage := ⟨⟨[Stage.connect, .request, .response], by decide⟩, fun stage => by cases stage <;> decide⟩

/-- A job in one of the stages. -/
inductive StageJob (D : Type) where
  | connect (job : Job (ConnectDataInternal D))
  | request (job : Job (RequestData D))
  | response (job : Job (ResponseData D))
  deriving DecidableEq

/-- A duplicate: the `PurgeState` that it shares with the other duplicates of its request, and its priority. -/
abbrev Duplicate := Nat × Priority

namespace StageJob

def stage : StageJob D → Stage
  | connect _ => .connect
  | request _ => .request
  | response _ => .response

def jobId : StageJob D → JobId
  | connect job => job.jobId
  | request job => job.jobId
  | response job => job.jobId

def priority : StageJob D → Priority
  | connect job => job.priority
  | request job => job.priority
  | response job => job.priority

def purgeState : StageJob D → Nat
  | connect job => job.jobData.purgeState
  | request job => job.jobData.purgeState
  | response job => job.jobData.purgeState

def key (j : StageJob D) : Duplicate := (j.purgeState, j.priority)

/-- The job that `ConnectCallback`, `RequestCallback` or `ResponseCallback` makes of the old one. -/
def forward (j : StageJob D) (soc : Int) : StageJob D :=
  match j with
  | connect job => request ⟨job.jobId, job.priority, job.duplication,
      ⟨soc, job.jobData.objectId, job.jobData.done, job.jobData.purgeState⟩⟩
  | request job => response ⟨job.jobId, job.priority, job.duplication,
      ⟨job.jobData.connection, job.jobData.objectId, 0, none, job.jobData.done, job.jobData.purgeState⟩⟩
  | response job => response job

@[simp] theorem forward_key (j : StageJob D) (soc : Int) : (j.forward soc).key = j.key := by cases j <;> rfl

@[simp] theorem forward_jobId (j : StageJob D) (soc : Int) : (j.forward soc).jobId = j.jobId := by cases j <;> rfl

end StageJob
end Dans
