import Jengine.Cluster.MailboxID
import Jengine.Lib.Runs
import Mathlib.Logic.Function.Basic
import Mathlib.Algebra.BigOperators.Group.List.Basic
import Mathlib.Algebra.Ring.Nat

/-!
# Executors and local messages

`NodeMonitor::SendMessage` (`base/cluster/nodemonitor.cpp`) gives a message for a
mailbox of its own node to its executor `exe_` as an `ActionNextCall`, and
`ActionManager::Update` (`base/action/actionmanager.cpp`) calls it later.

Both lists that `Update` walks are intrusive lists with `push_front` only
(`base/utils/intrusive_list.h`).  While the walk stands at an element, the list is
split there: what is pushed goes to the part the walk has passed, and the element
itself is the only one that can be erased.
-/

namespace Jengine.Action

open Jengine.Lib Jengine.Cluster

/-- A message cast by one mailbox to another. -/
structure Msg (μ : Type) where
  sender : MailboxID
  receiver : MailboxID
  body : μ
deriving DecidableEq

/-- An action: an `ActionNextCall` of `SendInternalMessageAtNextCall`, or any other. -/
structure Job (μ : Type) where
  call : Option (Msg μ)
  stopped : Bool
deriving DecidableEq

/-- `ActionBase::Stop`. -/
def Job.stop {μ : Type} (job : Job μ) : Job μ := { job with stopped := true }

/-- Where `Update` is. -/
inductive Phase (ε μ : Type) where
  | idle
  /-- `cur_exe` is the head of `left`. -/
  | visiting (left : List ε)
  /-- `cur_act` is the head of `rest`, `cur_exe` is `e`. -/
  | walking (e : ε) (rest : List (Job μ)) (left : List ε)
  /-- In, or right after, `OnUpdate` of `cur`. -/
  | running (e : ε) (cur : Job μ) (rest : List (Job μ)) (left : List ε)

structure ActionManager (ε μ : Type) where
  /-- The executor of the node monitor. -/
  exe : ε
  /-- The id of the local node. -/
  id : UInt8
  /-- The numbers of the registered mailboxes. -/
  mailboxes : List UInt32
  /-- `executors_` up to the executor that `Update` visits; all of it when idle. -/
  passed : List ε
  /-- `actions_` of an executor up to the action that `Update` runs; all of it for an
      executor that is not being walked. -/
  ahead : ε → List (Job μ)
  registered : ε → Bool
  phase : Phase ε μ
  /-- The messages given to `exe_` so far. -/
  cast : List (Msg μ)
  /-- Those of them given since the last `Update` began. -/
  fresh : List (Msg μ)
  /-- The messages that handlers got, in this order. -/
  delivered : List (Msg μ)

namespace ActionManager

variable {ε μ : Type} [DecidableEq ε]

def start (exe : ε) (id : UInt8) (mailboxes : List UInt32) : ActionManager ε μ where
  exe := exe
  id := id
  mailboxes := mailboxes
  passed := []
  ahead := fun _ => []
  registered := fun _ => false
  phase := .idle
  cast := []
  fresh := []
  delivered := []

/-- `Executor::RunAction`, with `ActionManager::RegisterNode`. -/
def runAction (s : ActionManager ε μ) (e : ε) (job : Job μ) : ActionManager ε μ :=
  { s with
    passed := if s.registered e then s.passed else e :: s.passed
    registered := Function.update s.registered e true
    ahead := Function.update s.ahead e (job :: s.ahead e) }

/-- `Mailbox::Cast` and `NodeMonitor::SendMessage`, for a local mailbox. -/
def castLocal (s : ActionManager ε μ) (m : Msg μ) : ActionManager ε μ :=
  if s.id = m.receiver.nodeid then
    { s.runAction s.exe ⟨some m, false⟩ with
      cast := s.cast ++ [m]
      fresh := s.fresh ++ [m] }
  else s

/-- `Executor::StopAllAction`. -/
def stopAllAction (s : ActionManager ε μ) (e : ε) : ActionManager ε μ :=
  { s with
    ahead := Function.update s.ahead e ((s.ahead e).map Job.stop)
    phase :=
      match s.phase with
      | .walking e' rest left => .walking e' (if e' = e then rest.map Job.stop else rest) left
      | .running e' cur rest left =>
          if e' = e then .running e' cur.stop (rest.map Job.stop) left
          else .running e' cur rest left
      | phase => phase }

/-- `SendInternalMessageAtNextCall`: the handler of the mailbox gets the message. -/
def sendInternalMessage (s : ActionManager ε μ) (m : Msg μ) : ActionManager ε μ :=
  if m.receiver.pid ∈ s.mailboxes then { s with delivered := s.delivered ++ [m] } else s

/-- `OnUpdate` of an action; what other actions do is up to the environment. -/
def onUpdate (s : ActionManager ε μ) (job : Job μ) : ActionManager ε μ :=
  match job.call with
  | some m => s.sendInternalMessage m
  | none => s

/-- `IsDone` after `OnUpdate`: an `ActionNextCall` is `executed_`, the others decide. -/
def isDone (job : Job μ) (done : Bool) : Bool :=
  match job.call with
  | some _ => true
  | none => done

/-- The next step of `Update`. -/
def next (s : ActionManager ε μ) (done : Bool) : ActionManager ε μ :=
  match s.phase with
  | .idle => s
  | .visiting [] => { s with phase := .idle }
  | .visiting (e :: left) =>
      match s.ahead e with
      -- no more actions: the executor is erased, then `OnAllActionFinish`
      | [] =>
          { s with
            phase := .visiting left
            registered := Function.update s.registered e false }
      | acts =>
          { s with
            phase := .walking e acts left
            ahead := Function.update s.ahead e [] }
  | .walking e [] left => { s with passed := s.passed ++ [e], phase := .visiting left }
  | .walking e (cur :: rest) left =>
      if cur.stopped then { s with phase := .walking e rest left }
      else { s.onUpdate cur with phase := .running e cur rest left }
  | .running e cur rest left =>
      if cur.stopped || isDone cur done then { s with phase := .walking e rest left }
      else
        { s with
          phase := .walking e rest left
          ahead := Function.update s.ahead e (s.ahead e ++ [cur]) }

inductive Input (ε μ : Type) where
  | cast (m : Msg μ)
  /-- Any action other than a local message. -/
  | run (e : ε)
  | stopAll (e : ε)
  | register (pid : UInt32)
  | unRegister (pid : UInt32)
  /-- `Update` is called. -/
  | update
  /-- `Update` goes on; if the step ends an action of another kind, `done` is its `IsDone`. -/
  | next (done : Bool)

def step (s : ActionManager ε μ) : Input ε μ → ActionManager ε μ
  | .cast m => s.castLocal m
  | .run e => s.runAction e ⟨none, false⟩
  | .stopAll e => s.stopAllAction e
  | .register pid => { s with mailboxes := pid :: s.mailboxes }
  | .unRegister pid => { s with mailboxes := s.mailboxes.filter fun x => x != pid }
  | .update =>
      match s.phase with
      | .idle => { s with passed := [], phase := .visiting s.passed, fresh := [] }
      | _ => s
  | .next done => s.next done

end ActionManager

end Jengine.Action
