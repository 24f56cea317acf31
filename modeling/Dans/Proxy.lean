import Mathlib.Data.Fintype.Sum
import Dans.Throttler

/-! `ProxyScheduler`: one scheduling thread for each priority runs `StartScheduling`, a loop over
    `Throttler::Dequeue`; any other threads complete jobs; jobs arrive; and the destructor sets `_destructing`
    and then calls `ReleaseQueues`, before `~Scheduler` joins the scheduling threads. What a scheduling thread
    does with a job in between is `process`: it holds the job until the end of the pass. -/

namespace Dans.Proxy

/-- The scheduling thread of a priority, or one of the other threads. -/
abbrev Thread (W : Type) := Fin 2 ⊕ W

/-- Where a scheduling thread is in its loop. -/
inductive Loop where
  /-- In front of the test of `_destructing`. -/
  | test
  /-- In `Throttler::Dequeue`, or in the destructor of a job. -/
  | inside
  | process (ret : Option Nat)
  | exited
  deriving DecidableEq

/-- The state of a `ProxyScheduler`; `released` says that the `ReleaseQueues` of its destructor has returned. -/
structure Sys (W T : Type) where
  th : Throttle.Sys (Thread W) T
  loop : Fin 2 → Loop
  destructing : Bool
  released : Bool

/-- A scheduling thread leaves the throttler with the job that the call returned. -/
def Loop.after {T : Type} : Throttle.Pc T → Loop
  | .outside ret => process ret
  | _ => inside

def Loop.processing : Loop → Bool
  | process _ => true
  | _ => false

inductive Label (W T : Type) where
  | loop (prio : Fin 2)
  | worker (w : W)
  | arrive (job : Job T)
  | complete (t : Thread W) (serial : Nat)
  | destruct
  | release

namespace Sys

variable {W T : Type}

/-- A job can be completed by any other thread, or by a scheduling thread at the end of a pass, but not
    while a scheduling thread holds it. -/
def MayComplete (s : Sys W T) (t : Thread W) (serial : Nat) : Prop :=
  ∀ p, (s.loop p = .process (some serial) → t = .inl p) ∧ (t = .inl p → (s.loop p).processing = true)

instance [DecidableEq W] (s : Sys W T) (t : Thread W) (serial : Nat) : Decidable (s.MayComplete t serial) :=
  inferInstanceAs (Decidable (∀ p,
    (s.loop p = .process (some serial) → t = .inl p) ∧ (t = .inl p → (s.loop p).processing = true)))

/-- The scheduling thread, if it is one, goes to `c` in its loop. -/
def goto (s : Sys W T) (t : Thread W) (c : Loop) : Fin 2 → Loop :=
  match t with
  | .inl p => Function.update s.loop p c
  | .inr _ => s.loop

variable [Fintype W] [DecidableEq W]

/-- The next step of the scheduling thread of a priority. -/
def turn (s : Sys W T) (p : Fin 2) : Option (Sys W T) :=
  match s.loop p with
  | .test =>
    if s.destructing then some { s with loop := s.goto (.inl p) .exited }
    else (s.th.next (.dequeue (.inl p) p)).map fun th => { s with th := th, loop := s.goto (.inl p) .inside }
  | .inside => (s.th.next (.step (.inl p))).map fun th =>
      { s with th := th, loop := s.goto (.inl p) (.after (th.pc (.inl p))) }
  | .process _ => some { s with loop := s.goto (.inl p) .test }
  | .exited => none

def next (s : Sys W T) : Label W T → Option (Sys W T)
  | .loop p => s.turn p
  | .worker w => (s.th.next (.step (.inr w))).map fun th => { s with th := th }
  | .arrive job => (s.th.next (.queueOp (.enqueue job))).map fun th => { s with th := th }
  | .complete t serial =>
    if s.MayComplete t serial then
      (s.th.next (.complete t serial)).map fun th => { s with th := th, loop := s.goto t .inside }
    else none
  | .destruct => if s.destructing then none else some { s with destructing := true }
  | .release =>
    if s.destructing && !s.released then
      (s.th.next (.queueOp .releaseQueues)).map fun th => { s with th := th, released := true }
    else none

end Sys

/-- A running `ProxyScheduler` with the given targets. -/
def system (W T : Type) [Fintype W] [DecidableEq W] (targets : Fin 2 → Int) : Lts (Sys W T) (Label W T) where
  init := { th := Throttle.start (Thread W) T targets, loop := fun _ => .test, destructing := false, released := false }
  next := Sys.next

end Dans.Proxy
