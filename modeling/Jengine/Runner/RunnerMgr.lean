import Jengine.Lib.IntrusiveList
import Jengine.Lib.Runs

/-!
# Runners and their command queues

`Runner`, `CommandQueue` and `RunnerMgr` (`base/command/`).  A runner pushes commands to
its queue and shares the queue with the manager, whose list holds a reference to each
queue it contains.  `Update` walks the list and runs the command at the front of each
queue; a queue whose reference count is not 2 has lost its runner.

Runners and commands are numbered, and the queue of a runner has the number of the runner.
A callback of a command is a phase of the machine.  Any code may create and destroy
runners, push and stop commands between any two steps, so also in every callback.  A
command is handed over once, as the owner of a new object does, and `Stop` is called on
commands that exist.  The trace records what is done to the commands; `use` is an access to
a member of a command.
-/

namespace Jengine.Runner

open Jengine.Lib

/-- `Command`. -/
structure Command where
  executed : Bool
  finish : Bool
  /-- The object has been deleted. -/
  deleted : Bool
  /-- The runner it has been pushed to. -/
  runner : Option Nat

/-- `CommandQueue`. -/
structure CommandQueue where
  cmds : List Nat
  referenceCount : Nat

/-- What is done to a command. -/
inductive Event where
  | pushed (r c : Nat)
  | stop (c : Nat)
  | use (c : Nat)
  | setup (c : Nat)
  /-- `OnSetup` returned true. -/
  | ready (c : Nat)
  /-- `OnSetup` returned false. -/
  | failed (c : Nat)
  | execute (c : Nat)
  | cleanup (c : Nat)
  | delete (c : Nat)
deriving DecidableEq

inductive Life where
  | unborn
  | alive
  | dead
deriving DecidableEq

/-- Where `Update` is. -/
inductive Phase where
  | idle
  /-- At the top of the loop. -/
  | loop (q : Option Nat)
  /-- In `OnSetup`, `OnCommandExecute` or `OnCleanup` of the front of a queue. -/
  | inSetup (q top : Nat)
  | inExecute (q top : Nat)
  | inCleanup (q top : Nat)

structure RunnerMgr where
  commands : Nat → Command
  queues : Nat → CommandQueue
  /-- The `Runner` objects. -/
  life : Nat → Life
  list : IntrusiveList Nat
  phase : Phase
  trace : List Event

namespace RunnerMgr

def start : RunnerMgr where
  commands := fun _ => ⟨false, false, false, none⟩
  queues := fun _ => ⟨[], 0⟩
  life := fun _ => .unborn
  list := .empty
  phase := .idle
  trace := []

def emit (s : RunnerMgr) (es : List Event) : RunnerMgr := { s with trace := s.trace ++ es }

def setQueue (s : RunnerMgr) (q : Nat) (queue : CommandQueue) : RunnerMgr :=
  { s with queues := Function.update s.queues q queue }

def setCommand (s : RunnerMgr) (c : Nat) (cmd : Command) : RunnerMgr :=
  { s with commands := Function.update s.commands c cmd }

/-- `delete` of a command. -/
def deleteCommand (s : RunnerMgr) (c : Nat) : RunnerMgr :=
  (s.setCommand c { s.commands c with deleted := true }).emit [.delete c]

/-- `~CommandQueue`. -/
def destroyQueue (s : RunnerMgr) (q : Nat) : RunnerMgr :=
  let cmds := (s.queues q).cmds
  cmds.foldl deleteCommand (s.setQueue q { s.queues q with cmds := [] })

/-- `Object::Release` of a queue. -/
def release (s : RunnerMgr) (q : Nat) : RunnerMgr :=
  let queue := s.queues q
  let s := s.setQueue q { queue with referenceCount := queue.referenceCount - 1 }
  if queue.referenceCount - 1 = 0 then s.destroyQueue q else s

/-- `RunnerMgr::Register`. -/
def register (s : RunnerMgr) (q : Nat) : RunnerMgr :=
  if s.list.contains q then s
  else
    let queue := s.queues q
    { s.setQueue q { queue with referenceCount := queue.referenceCount + 1 } with
      list := s.list.pushFront q }

/-- `CommandQueue::Push`. -/
def push (s : RunnerMgr) (q c : Nat) : RunnerMgr :=
  let queue := s.queues q
  ((s.setQueue q { queue with cmds := queue.cmds ++ [c] }).setCommand c
    { s.commands c with runner := some q }).emit [.pushed q c]

/-- `Runner::PushCommand`. -/
def pushCommand (s : RunnerMgr) (r c : Nat) : RunnerMgr := (s.push r c).register r

/-- `Runner::Runner`. -/
def newRunner (s : RunnerMgr) (r : Nat) : RunnerMgr :=
  { s.setQueue r ⟨[], 1⟩ with life := Function.update s.life r .alive }

/-- `Runner::~Runner`. -/
def destroyRunner (s : RunnerMgr) (r : Nat) : RunnerMgr :=
  release { s with life := Function.update s.life r .dead } r

/-- `Command::Stop`. -/
def stop (s : RunnerMgr) (c : Nat) : RunnerMgr :=
  (s.setCommand c { s.commands c with finish := true }).emit [.stop c]

/-- `Update` takes a queue out of the list. -/
def drop (s : RunnerMgr) (q : Nat) : RunnerMgr :=
  let (list, next) := s.list.erase q
  release { s with list := list, phase := .loop next } q

/-- `TryExecute` returns to `Update`. -/
def returned (s : RunnerMgr) (q : Nat) : RunnerMgr :=
  if (s.queues q).cmds = [] then s.drop q else { s with phase := .loop (s.list.next q) }

/-- The front of a queue is deleted and popped. -/
def pop (s : RunnerMgr) (q top : Nat) : RunnerMgr :=
  let s := s.deleteCommand top
  { s.setQueue q { s.queues q with cmds := (s.queues q).cmds.tail } with phase := .loop (some q) }

/-- The second half of `TryExecute`: clean up what has been stopped. -/
def checkFinish (s : RunnerMgr) (q top : Nat) : RunnerMgr :=
  let s := s.emit [.use top]
  if (s.commands top).finish then { s.emit [.cleanup top] with phase := .inCleanup q top }
  else s.returned q

/-- `TryExecute`. -/
def tryExecute (s : RunnerMgr) (q : Nat) : RunnerMgr :=
  match (s.queues q).cmds with
  | [] => s.returned q
  | top :: _ =>
      let s := s.emit [.use top]
      if !(s.commands top).executed then { s.emit [.setup top] with phase := .inSetup q top }
      else s.checkFinish q top

/-- `Update` goes on; `ok` is what `OnSetup` returned. -/
def next (s : RunnerMgr) (ok : Bool) : RunnerMgr :=
  match s.phase with
  | .idle => s
  | .loop none => { s with phase := .idle }
  | .loop (some q) => if (s.queues q).referenceCount = 2 then s.tryExecute q else s.drop q
  | .inSetup q top =>
      if ok then
        let s := s.setCommand top { s.commands top with executed := true }
        { s.emit [.ready top, .execute top] with phase := .inExecute q top }
      else ((s.emit [.failed top]).pop q top).returned q
  | .inExecute q top => checkFinish { s with phase := .loop (some q) } q top
  | .inCleanup q top => (s.pop q top).returned q

inductive Action where
  | newRunner (r : Nat)
  | destroyRunner (r : Nat)
  | pushCommand (r c : Nat)
  | stop (c : Nat)
  /-- `Update` is called. -/
  | update
  | next (ok : Bool)

/-- What cannot happen leaves the state. -/
def step (s : RunnerMgr) : Action → RunnerMgr
  | .newRunner r => if s.life r = .unborn then s.newRunner r else s
  | .destroyRunner r => if s.life r = .alive then s.destroyRunner r else s
  | .pushCommand r c =>
      if s.life r = .alive ∧ (s.commands c).runner = none then s.pushCommand r c else s
  | .stop c => if (s.commands c).deleted then s else s.stop c
  | .update =>
      match s.phase with
      | .idle => { s with phase := .loop s.list.front }
      | _ => s
  | .next ok => s.next ok

/-! ### What a trace should look like -/

/-- The commands pushed to a runner, in order. -/
def pushes (r : Nat) (t : List Event) : List Nat :=
  t.filterMap fun
    | .pushed r' c => if r' = r then some c else none
    | _ => none

/-- A command is through: it has failed its setup or has been cleaned up, and is deleted. -/
def Finished (d : Nat) (t : List Event) : Prop :=
  .delete d ∈ t ∧ (.failed d ∈ t ∨ .cleanup d ∈ t)

/-- What may be done to a command after `t`. -/
def Allowed (t : List Event) : Event → Prop
  | .pushed _ c => ∀ r, .pushed r c ∉ t
  | .stop _ => True
  | .use c => .delete c ∉ t
  | .setup c =>
      .setup c ∉ t ∧ .delete c ∉ t ∧
        ∃ r before after, pushes r t = before ++ c :: after ∧ ∀ d ∈ before, Finished d t
  | .ready c | .failed c => .setup c ∈ t ∧ .ready c ∉ t ∧ .failed c ∉ t
  | .execute c => .execute c ∉ t ∧ .delete c ∉ t ∧ .ready c ∈ t
  | .cleanup c => .cleanup c ∉ t ∧ .delete c ∉ t ∧ .execute c ∈ t ∧ .stop c ∈ t
  | .delete c => .delete c ∉ t

/-- Every event of the trace was allowed after those before it. -/
def Lawful (t : List Event) : Prop := ∀ before e after, t = before ++ e :: after → Allowed before e

theorem lawful_nil : Lawful [] := fun before e after h => by simp at h

theorem lawful_snoc {t : List Event} {e : Event} : Lawful (t ++ [e]) ↔ Lawful t ∧ Allowed t e := by
  constructor
  · intro h
    constructor
    · rintro before d after rfl
      exact h before d (after ++ [e]) (by simp)
    · exact h t e [] rfl
  · rintro ⟨h, he⟩ before d after heq
    rcases List.eq_nil_or_concat after with rfl | ⟨after, e', rfl⟩
    · obtain ⟨rfl, hlast⟩ := List.append_inj' heq rfl
      cases hlast
      exact he
    · rw [List.concat_eq_append, ← List.cons_append, ← List.append_assoc] at heq
      obtain ⟨rfl, -⟩ := List.append_inj' heq rfl
      exact h before d after rfl

end RunnerMgr

end Jengine.Runner
