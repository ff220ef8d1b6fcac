import Jengine.Action.ActionBase
import Jengine.Lib.Ownership
import Jengine.Lib.Runs
import Mathlib.Data.List.Infix

/-!
# The scheduling of actions

`ActionManager::Update` (`base/action/actionmanager.cpp`) with all kinds of actions, with what
code does while a callback runs and between two frames, and with the references that
`Executor::RunAction` and `ActionManager::RegisterNode` take.

Both lists are intrusive lists with `push_front` only: while `Update` stands at an element, what
is pushed goes to the part it has passed.
-/

namespace Jengine.Action

open Jengine.Lib

/-- What is counted: executors `ε` and actions `ι`. -/
inductive Object (ε ι : Type) where
  | executor (e : ε)
  | action (i : ι)
deriving DecidableEq

/-- Where `Update` is. -/
inductive Walk (ε ι : Type) where
  | idle
  /-- `cur_exe` is the head of `left`. -/
  | visiting (left : List ε)
  /-- In `OnAllActionFinish` of `e`, which has been erased. -/
  | finishing (e : ε) (left : List ε)
  /-- `cur_act` is the head of `rest`, `cur_exe` is `e`. -/
  | walking (e : ε) (rest : List ι) (left : List ε)
  /-- In, or right after, `OnUpdate` of `cur`. -/
  | running (e : ε) (cur : ι) (rest : List ι) (left : List ε)

/-- With the callbacks `κ` of `BeginStopAllAction`. -/
structure Scheduler (ε ι κ : Type) where
  /-- `executors_` up to the executor that `Update` visits; all of it when idle. -/
  passed : List ε
  /-- `actions_` up to the action that `Update` runs; all of it for an executor that is not
      being walked. -/
  ahead : ε → List ι
  registered : ε → Bool
  cbStop : ε → Option κ
  /-- `list_member_hook_.list_` of an action. -/
  link : ι → Option ε
  kind : ι → Kind
  stopped : ι → Bool
  walk : Walk ε ι
  /-- What `Update` has been called with. -/
  frame : Frame
  heap : Heap (Object ε ι)
  /-- The references that code holds. -/
  held : List (Object ε ι)
  /-- The references that the two lists hold. -/
  kept : List (Object ε ι)
  /-- The frames that are over. -/
  frames : List Frame
  /-- What an action was when it was run last, and the number of frames before its first one. -/
  ran : ι → Option (Kind × Nat)
  /-- The ticks of its callbacks since then. -/
  ticks : ι → List Int64
  /-- The callbacks of `BeginStopAllAction` so far. -/
  called : List (ε × κ)

namespace Scheduler

variable {ε ι κ : Type} [DecidableEq ε] [DecidableEq ι]

def start : Scheduler ε ι κ where
  passed := []
  ahead := fun _ => []
  registered := fun _ => false
  cbStop := fun _ => none
  link := fun _ => none
  kind := fun _ => .nextCall false
  stopped := fun _ => false
  walk := .idle
  frame := ⟨0, 0⟩
  heap := .empty
  held := []
  kept := []
  frames := []
  ran := fun _ => none
  ticks := fun _ => []
  called := []

/-! ### The lists -/

/-- The executors that `Update` has still to visit. -/
def left (s : Scheduler ε ι κ) : List ε :=
  match s.walk with
  | .idle => []
  | .visiting left => left
  | .finishing _ left => left
  | .walking _ _ left => left
  | .running _ _ _ left => left

/-- The executor that `Update` walks, and those after it. -/
def here (s : Scheduler ε ι κ) : List ε :=
  match s.walk with
  | .idle => []
  | .visiting left => left
  | .finishing _ left => left
  | .walking e _ left => e :: left
  | .running e _ _ left => e :: left

/-- `executors_`. -/
def executors (s : Scheduler ε ι κ) : List ε := s.passed ++ s.here

/-- The action that is being updated. -/
def cur (s : Scheduler ε ι κ) : Option ι :=
  match s.walk with
  | .running _ cur _ _ => some cur
  | _ => none

/-- The actions after it, of the same executor. -/
def rest (s : Scheduler ε ι κ) : List ι :=
  match s.walk with
  | .walking _ rest _ => rest
  | .running _ _ rest _ => rest
  | _ => []

/-- `actions_`. -/
def actions (s : Scheduler ε ι κ) (e : ε) : List ι :=
  s.ahead e ++
    match s.walk with
    | .walking e' rest _ => if e' = e then rest else []
    | .running e' cur rest _ => if e' = e then cur :: rest else []
    | _ => []

/-- The frames that have begun. -/
def begun (s : Scheduler ε ι κ) : List Frame :=
  match s.walk with
  | .idle => s.frames
  | _ => s.frames ++ [s.frame]

/-! ### What is done with actions -/

/-- `Retain`, for one of the lists. -/
def keep (s : Scheduler ε ι κ) (o : Object ε ι) : Scheduler ε ι κ :=
  { s with
    heap := s.heap.retain o
    kept := o :: s.kept }

/-- `Release`, for one of the lists. -/
def letGo (s : Scheduler ε ι κ) (o : Object ε ι) : Scheduler ε ι κ :=
  { s with
    heap := (s.heap.release o).1
    kept := s.kept.erase o }

def access (s : Scheduler ε ι κ) (os : List (Object ε ι)) : Scheduler ε ι κ :=
  { s with heap := s.heap.access os }

/-- `ActionManager::RegisterNode`, unless the executor is registered. -/
def registerNode (s : Scheduler ε ι κ) (e : ε) : Scheduler ε ι κ :=
  if s.registered e then s
  else
    { s.keep (.executor e) with
      registered := Function.update s.registered e true
      passed := e :: s.passed }

/-- The number of frames before the first one that reaches an action which is run now. -/
def due (s : Scheduler ε ι κ) (e : ε) : Nat :=
  if e ∈ s.left then s.frames.length else s.begun.length

/-- `Executor::RunAction`. -/
def runAction (s : Scheduler ε ι κ) (e : ε) (i : ι) : Scheduler ε ι κ :=
  let s := (s.access [.executor e]).registerNode e
  { s.keep (.action i) with
    ahead := Function.update s.ahead e (i :: s.ahead e)
    link := Function.update s.link i (some e)
    ran := Function.update s.ran i (some (s.kind i, s.due e))
    ticks := Function.update s.ticks i [] }

/-- `ActionBase::Stop`. -/
def stop (s : Scheduler ε ι κ) (i : ι) : Scheduler ε ι κ :=
  { s.access [.action i] with stopped := Function.update s.stopped i true }

/-- `Executor::StopAllAction`. -/
def stopAllAction (s : Scheduler ε ι κ) (e : ε) : Scheduler ε ι κ :=
  { s.access (.executor e :: (s.actions e).map .action) with
    stopped := fun i => s.stopped i || decide (i ∈ s.actions e) }

/-- `Executor::BeginStopAllAction`. -/
def beginStopAllAction (s : Scheduler ε ι κ) (e : ε) (cb : κ) : Scheduler ε ι κ :=
  if s.actions e = [] then { s.access [.executor e] with called := s.called ++ [(e, cb)] }
  else { s.stopAllAction e with cbStop := Function.update s.cbStop e (some cb) }

/-! ### `Update` -/

/-- `erase` and `Release` of an action. -/
def erase (s : Scheduler ε ι κ) (i : ι) : Scheduler ε ι κ :=
  { s.letGo (.action i) with link := Function.update s.link i none }

def onUpdate (s : Scheduler ε ι κ) (i : ι) : Scheduler ε ι κ :=
  let (kind, fires) := (s.kind i).onUpdate s.frame.span
  { s with
    kind := Function.update s.kind i kind
    ticks := if fires then Function.update s.ticks i (s.ticks i ++ [s.frame.tick]) else s.ticks }

/-- `Executor::OnAllActionFinish`, up to the call of `cb_stop_`. -/
def onAllActionFinish (s : Scheduler ε ι κ) (e : ε) : Scheduler ε ι κ :=
  { s with
    registered := Function.update s.registered e false
    called :=
      match s.cbStop e with
      | some cb => s.called ++ [(e, cb)]
      | none => s.called }

/-- The end of the frame. -/
def endFrame (s : Scheduler ε ι κ) : Scheduler ε ι κ :=
  { s with
    walk := .idle
    frames := s.frames ++ [s.frame] }

/-- An executor without actions is erased. -/
def finish (s : Scheduler ε ι κ) (e : ε) (left : List ε) : Scheduler ε ι κ :=
  { (s.access [.executor e]).onAllActionFinish e with walk := .finishing e left }

/-- After `OnAllActionFinish`. -/
def forget (s : Scheduler ε ι κ) (e : ε) (left : List ε) : Scheduler ε ι κ :=
  { s.letGo (.executor e) with walk := .visiting left }

/-- From an executor to the first one of its actions. -/
def enter (s : Scheduler ε ι κ) (e : ε) (left : List ε) : Scheduler ε ι κ :=
  { s.access [.executor e] with
    walk := .walking e (s.ahead e) left
    ahead := Function.update s.ahead e [] }

/-- To the next executor. -/
def leave (s : Scheduler ε ι κ) (e : ε) (left : List ε) : Scheduler ε ι κ :=
  { s.access [.executor e] with
    walk := .visiting left
    passed := s.passed ++ [e] }

/-- `OnUpdate` is called. -/
def call (s : Scheduler ε ι κ) (e : ε) (cur : ι) (rest : List ι) (left : List ε) :
    Scheduler ε ι κ :=
  { (s.access [.executor e, .action cur]).onUpdate cur with walk := .running e cur rest left }

/-- An action is given up. -/
def drop (s : Scheduler ε ι κ) (e : ε) (cur : ι) (rest : List ι) (left : List ε) :
    Scheduler ε ι κ :=
  { (s.access [.executor e, .action cur]).erase cur with walk := .walking e rest left }

/-- To the next action. -/
def pass (s : Scheduler ε ι κ) (e : ε) (cur : ι) (rest : List ι) (left : List ε) :
    Scheduler ε ι κ :=
  { s.access [.executor e, .action cur] with
    walk := .walking e rest left
    ahead := Function.update s.ahead e (s.ahead e ++ [cur]) }

/-- The next step of `Update`. -/
def next (s : Scheduler ε ι κ) : Scheduler ε ι κ :=
  match s.walk with
  | .idle => s
  | .visiting [] => s.endFrame
  | .visiting (e :: left) => if s.ahead e = [] then s.finish e left else s.enter e left
  | .finishing e left => s.forget e left
  | .walking e [] left => s.leave e left
  | .walking e (cur :: rest) left =>
      if s.stopped cur then s.drop e cur rest left else s.call e cur rest left
  | .running e cur rest left =>
      if s.stopped cur || (s.kind cur).isDone then s.drop e cur rest left
      else s.pass e cur rest left

/-- What a step of `Update` can do. -/
theorem next_cases {P : Scheduler ε ι κ → Prop} (s : Scheduler ε ι κ)
    (idle : s.walk = .idle → P s)
    (endFrame : s.walk = .visiting [] → P s.endFrame)
    (finish : ∀ e left, s.walk = .visiting (e :: left) → s.ahead e = [] → P (s.finish e left))
    (enter : ∀ e left, s.walk = .visiting (e :: left) → s.ahead e ≠ [] → P (s.enter e left))
    (forget : ∀ e left, s.walk = .finishing e left → P (s.forget e left))
    (leave : ∀ e left, s.walk = .walking e [] left → P (s.leave e left))
    (call : ∀ e cur rest left, s.walk = .walking e (cur :: rest) left → s.stopped cur = false →
      P (s.call e cur rest left))
    (drop : ∀ e cur rest left, (s.walk = .walking e (cur :: rest) left ∧ s.stopped cur = true ∨
      s.walk = .running e cur rest left ∧ (s.stopped cur = true ∨ (s.kind cur).isDone = true)) →
      P (s.drop e cur rest left))
    (pass : ∀ e cur rest left, s.walk = .running e cur rest left → s.stopped cur = false →
      (s.kind cur).isDone = false → P (s.pass e cur rest left)) : P s.next := by
  rw [next]
  split
  · exact idle ‹_›
  · exact endFrame ‹_›
  · rename_i e left hwalk
    split
    · exact finish e left hwalk ‹_›
    · exact enter e left hwalk ‹_›
  · exact forget _ _ ‹_›
  · exact leave _ _ ‹_›
  · rename_i e cur rest left hwalk
    by_cases hstop : s.stopped cur = true
    · rw [if_pos hstop]
      exact drop e cur rest left (Or.inl ⟨hwalk, hstop⟩)
    · rw [if_neg hstop]
      exact call e cur rest left hwalk (Bool.eq_false_iff.mpr hstop)
  · rename_i e cur rest left hwalk
    by_cases hover : (s.stopped cur || (s.kind cur).isDone) = true
    · rw [if_pos hover]
      exact drop e cur rest left (Or.inr ⟨hwalk, Bool.or_eq_true_iff.mp hover⟩)
    · rw [if_neg hover]
      simp only [Bool.or_eq_true, not_or, Bool.not_eq_true] at hover
      exact pass e cur rest left hwalk hover.1 hover.2

inductive Input (ε ι κ : Type) where
  | newExecutor (e : ε)
  | newAction (i : ι) (kind : Kind)
  | retain (o : Object ε ι)
  | release (o : Object ε ι)
  | runAction (e : ε) (i : ι)
  | stop (i : ι)
  | stopAllAction (e : ε)
  | beginStopAllAction (e : ε) (cb : κ)
  /-- `Update` is called. -/
  | update (f : Frame)
  /-- `Update` goes on. -/
  | next

def step (s : Scheduler ε ι κ) : Input ε ι κ → Scheduler ε ι κ
  | .newExecutor e =>
      { s with
        heap := s.heap.create (.executor e) []
        held := .executor e :: s.held }
  | .newAction i kind =>
      { s with
        kind := Function.update s.kind i kind
        stopped := Function.update s.stopped i false
        heap := s.heap.create (.action i) []
        held := .action i :: s.held
        ran := Function.update s.ran i none
        ticks := Function.update s.ticks i [] }
  | .retain o =>
      { s with
        heap := s.heap.retain o
        held := o :: s.held }
  | .release o =>
      { s with
        heap := (s.heap.release o).1
        held := s.held.erase o }
  | .runAction e i => s.runAction e i
  | .stop i => s.stop i
  | .stopAllAction e => s.stopAllAction e
  | .beginStopAllAction e cb => s.beginStopAllAction e cb
  | .update f =>
      match s.walk with
      | .idle => { s with passed := [], walk := .visiting s.passed, frame := f }
      | _ => s
  | .next => s.next

end Scheduler

end Jengine.Action
