import Jengine.Lib.Runs
import Mathlib.Data.List.Nodup

/-!
# The dispatcher and its deferred closes

`Dispatcher::Dispatch` (`base/event/dispatcher.cpp`) runs timers and commands,
delivers a batch of events, and then finalises what has been closed meanwhile.
`EventIO::Close` (`base/event/eventio.cpp`) only queues the object: it stays in
`io_list_`, and later events of the batch may still point at it.

Objects are of an arbitrary type.  Any code may add and close objects between
any two steps of the dispatcher, so also in every callback.  The trace records
what was done to the objects: `added` stands for `AddToDispatcher` with its
`Retain`, `closed` for a `Close` of an object that is in the dispatcher's list
and open (any other `Close` has no effect on the dispatcher), `released` for the
dispatcher's `Release`.
-/

namespace Jengine.Event

open Jengine.Lib

/-- An event of a batch: which object, and which of its callbacks are due. -/
structure Ready (α : Type) where
  obj : α
  readable : Bool
  writeable : Bool

/-- What is done to an object. -/
inductive Act (α : Type) where
  | added (o : α)
  | closed (o : α)
  | readable (o : α)
  | writeable (o : α)
  | onClose (o : α)
  | released (o : α)
deriving DecidableEq

/-- Where the dispatcher is in its loop. -/
inductive Phase (α : Type) where
  /-- Timers, commands and the main loop. -/
  | frame
  | handling (batch : List (Ready α))
  /-- Between the two callbacks of an event. -/
  | between (e : Ready α) (batch : List (Ready α))
  | draining
  /-- In, or right after, `OnEventIOClose` of an object. -/
  | finalizing (cur : α)

structure Dispatcher (α : Type) where
  ioList : List α
  closedIoList : List α
  /-- The objects whose `closed_` is set. -/
  closed : List α
  phase : Phase α
  trace : List (Act α)

namespace Dispatcher

variable {α : Type} [DecidableEq α]

def start : Dispatcher α := ⟨[], [], [], .frame, []⟩

/-- What the program, the kernel and the dispatcher do. -/
inductive Action (α : Type) where
  | add (o : α)
  | close (o : α)
  /-- `epoll_wait` returns. -/
  | wait (batch : List (Ready α))
  /-- The dispatcher goes on. -/
  | next

/-- `EventIO::AddToDispatcher`. -/
def add (s : Dispatcher α) (o : α) : Dispatcher α :=
  { s with ioList := o :: s.ioList, trace := s.trace ++ [.added o] }

/-- `EventIO::Close`. -/
def close (s : Dispatcher α) (o : α) : Dispatcher α :=
  if o ∉ s.closed ∧ o ∈ s.ioList then
    { s with
      closedIoList := s.closedIoList ++ [o]
      closed := o :: s.closed
      trace := s.trace ++ [.closed o] }
  else s

/-- The descriptor of an object is known to epoll from `AddToDispatcher` to `Close`. -/
def registered (s : Dispatcher α) (o : α) : Prop := o ∈ s.ioList ∧ o ∉ s.closed

instance (s : Dispatcher α) (o : α) : Decidable (s.registered o) := by
  unfold registered
  infer_instance

/-- The next step of `Dispatch`. -/
def next (s : Dispatcher α) : Dispatcher α :=
  match s.phase with
  | .frame => s
  | .handling [] => { s with phase := .draining }
  | .handling (e :: batch) =>
      if e.obj ∉ s.closed ∧ e.readable = true then
        { s with phase := .between e batch, trace := s.trace ++ [.readable e.obj] }
      else { s with phase := .between e batch }
  | .between e batch =>
      if e.obj ∉ s.closed ∧ e.writeable = true then
        { s with phase := .handling batch, trace := s.trace ++ [.writeable e.obj] }
      else { s with phase := .handling batch }
  | .draining =>
      match s.closedIoList with
      | [] => { s with phase := .frame }
      | cur :: _ => { s with phase := .finalizing cur, trace := s.trace ++ [.onClose cur] }
  | .finalizing cur =>
      { s with
        phase := .draining
        ioList := s.ioList.erase cur
        closedIoList := s.closedIoList.tail
        trace := s.trace ++ [.released cur] }

def step (s : Dispatcher α) : Action α → Dispatcher α
  | .add o => s.add o
  | .close o => s.close o
  | .wait batch =>
      match s.phase with
      | .frame => { s with phase := .handling (batch.filter fun e => s.registered e.obj) }
      | _ => s
  | .next => s.next

/-- Every object is added at most once. -/
def Once (s : Dispatcher α) : Action α → Prop
  | .add o => .added o ∉ s.trace
  | _ => True

instance (s : Dispatcher α) (a : Action α) : Decidable (s.Once a) := by
  cases a <;> unfold Once <;> infer_instance

end Dispatcher

end Jengine.Event
