import Jengine.Lib.Multimap
import Mathlib.Algebra.Order.Group.Int
import Mathlib.Logic.Function.Basic

/-!
# Timers

`Timer` (`base/timer.h`) keeps its actions in a multimap by the tick they are due at.
`Update` walks over it from the front, runs what is due, takes it out, and puts intervals
back behind the walk.  An action may have a linker, with a reference of the action's own;
it is run while there is exactly one reference more.

Actions are numbered, and a linker has the number of its action.  A callback may set
timeouts and intervals and retain and release linkers; which of this it does may depend on
anything, and the clock it sees (`tickprovider_()`) is part of what it does.  Whoever wants
a linker retains it when it is returned; afterwards it is retained and released only by
those who hold it.  Ticks do not overflow.
-/

namespace Jengine.Base

open Jengine.Lib

/-- `DelayAction`; the number stands for `fun_`. -/
structure DelayAction where
  number : Nat
  tick : Int
  /-- `linker_`. -/
  linker : Option Nat
  interval : Int
deriving DecidableEq, Repr

namespace DelayAction

/-- `ResetTimeout(tick + interval())`. -/
def rearm (tick : Int) (a : DelayAction) : DelayAction := { a with tick := tick + a.interval }

def repeats (a : DelayAction) : Bool := decide (0 < a.interval)

end DelayAction

/-- What `operator()` of an action did: the `reference_count()` it saw, and whether it called
    `fun_`. -/
structure Timer.Visit where
  action : DelayAction
  count : Option Nat
  fired : Bool
deriving DecidableEq, Repr

/-- `Timer`. -/
structure Timer where
  delayqueue : Multimap Int DelayAction
  intervals : List DelayAction
  /-- `reference_count()` of the linkers. -/
  linkers : Nat → Nat
  /-- The number of the next action. -/
  next : Nat
  /-- The actions set so far. -/
  created : List DelayAction
  /-- What has been visited so far. -/
  visits : List Timer.Visit

namespace Timer

/-- What code outside may do; `now` is what `tickprovider_()` returns, and `keep` the number of
    references taken to the linker that is returned. -/
inductive Op where
  | timeout (delay now : Int)
  | timeoutWithLinker (delay now : Int) (keep : Nat)
  | intervalWithLinker (interval now : Int) (keep : Nat)
  | retain (linker : Nat)
  | release (linker : Nat)

/-- What an operation sets is due after `tick`: the delay is positive, and the clock has come to
    `tick`. -/
def Op.Later (tick : Int) : Op → Prop
  | .timeout delay now => 0 < delay ∧ tick ≤ now
  | .timeoutWithLinker delay now _ => 0 < delay ∧ tick ≤ now
  | .intervalWithLinker interval now _ => 0 < interval ∧ tick ≤ now
  | .retain _ => True
  | .release _ => True

/-- The callbacks during `Update(tick)`. -/
structure Callbacks (tick : Int) where
  ops : DelayAction → Timer → List Op
  later : ∀ a s, ∀ op ∈ ops a s, op.Later tick

def init : Timer := ⟨Multimap.empty, [], fun _ => 0, 0, [], []⟩

/-- `delayqueue_.emplace(timeout, new DelayAction(..))`. -/
def add (s : Timer) (timeout : Int) (linked : Bool) (interval : Int) : Timer :=
  let a : DelayAction := ⟨s.next, timeout, if linked then some s.next else none, interval⟩
  { s with delayqueue := s.delayqueue.emplace timeout a
           linkers := if linked then Function.update s.linkers s.next 1 else s.linkers
           next := s.next + 1
           created := s.created ++ [a] }

def setTimeout (s : Timer) (timeout now : Int) : Timer := s.add (timeout + now) false 0

/-- `SetTimeoutWithLinker`, with the linker that it returns. -/
def setTimeoutWithLinker (s : Timer) (timeout now : Int) : Timer × Nat :=
  (s.add (timeout + now) true 0, s.next)

/-- `SetIntervalWithLinker`, with the linker that it returns. -/
def setIntervalWithLinker (s : Timer) (interval now : Int) : Timer × Nat :=
  (s.add (interval + now) true interval, s.next)

/-- The actions that have not been deleted. -/
def alive (s : Timer) : List DelayAction := s.delayqueue.nodes.map Node.val ++ s.intervals

/-- The references to a linker that actions hold. -/
def owned (s : Timer) (l : Nat) : Nat := if s.alive.any fun a => a.linker == some l then 1 else 0

/-- `n` times `linker->Retain()`. -/
def retains (s : Timer) (l n : Nat) : Timer :=
  { s with linkers := Function.update s.linkers l (s.linkers l + n) }

/-- `linker->Release()`. -/
def releaseOne (s : Timer) (l : Nat) : Timer :=
  { s with linkers := Function.update s.linkers l (s.linkers l - 1) }

def perform (s : Timer) : Op → Timer
  | .timeout delay now => s.setTimeout delay now
  | .timeoutWithLinker delay now keep =>
      let (s', l) := s.setTimeoutWithLinker delay now
      s'.retains l keep
  | .intervalWithLinker interval now keep =>
      let (s', l) := s.setIntervalWithLinker interval now
      s'.retains l keep
  | .retain l => if s.owned l < s.linkers l then s.retains l 1 else s
  | .release l => if s.owned l < s.linkers l then s.releaseOne l else s

/-- The actions that operations set, one after the other, when the next has the number `next`. -/
def sets (next : Nat) : List Op → List DelayAction
  | [] => []
  | .timeout delay now :: ops => ⟨next, delay + now, none, 0⟩ :: sets (next + 1) ops
  | .timeoutWithLinker delay now _ :: ops =>
      ⟨next, delay + now, some next, 0⟩ :: sets (next + 1) ops
  | .intervalWithLinker interval now _ :: ops =>
      ⟨next, interval + now, some next, interval⟩ :: sets (next + 1) ops
  | .retain _ :: ops => sets next ops
  | .release _ :: ops => sets next ops

/-- The condition of `operator()`. -/
def fires (s : Timer) (a : DelayAction) : Bool :=
  match a.linker with
  | none => true
  | some l => s.linkers l == 2

/-- `(*it->second)()`. -/
def call {tick : Int} (s : Timer) (cb : Callbacks tick) (a : DelayAction) : Timer :=
  let s' := { s with visits := s.visits ++ [⟨a, a.linker.map s.linkers, s.fires a⟩] }
  if s.fires a then (cb.ops a s).foldl perform s' else s'

/-- `~DelayAction`. -/
def dispose (s : Timer) (a : DelayAction) : Timer :=
  match a.linker with
  | none => s
  | some l => s.releaseOne l

/-- One round of the walk of `Update`; the second component is `it` afterwards. -/
def visit {tick : Int} (cb : Callbacks tick) (s : Timer) (n : Node Int DelayAction) :
    Timer × Option Nat :=
  let s := s.call cb n.val
  let s := if n.val.repeats then { s with intervals := s.intervals ++ [n.val] } else s.dispose n.val
  let (q, it) := s.delayqueue.erase n.id
  ({ s with delayqueue := q }, it)

/-- The walk; `none` if it is not over after so many rounds, or if `it` points to nothing. -/
def updateLoop {tick : Int} (cb : Callbacks tick) : Nat → Option Nat → Timer → Option Timer
  | _, none, s => some s
  | 0, some _, _ => none
  | fuel + 1, some it, s =>
      match s.delayqueue.find it with
      | none => none
      | some n =>
          if tick < n.key then some s
          else
            let (s', it') := s.visit cb n
            updateLoop cb fuel it' s'

/-- `ResetTimeout` and `emplace` of an interval. -/
def reinsert (tick : Int) (s : Timer) (a : DelayAction) : Timer :=
  { s with delayqueue := s.delayqueue.emplace (a.rearm tick).tick (a.rearm tick) }

/-- What `Update` does after the walk. -/
def settle (tick : Int) (s : Timer) : Timer :=
  { s.intervals.foldl (reinsert tick) s with intervals := [] }

/-- `Update`. -/
def update {tick : Int} (cb : Callbacks tick) (fuel : Nat) (s : Timer) : Option Timer :=
  if s.delayqueue.nodes.isEmpty then some s
  else (updateLoop cb fuel s.delayqueue.first s).map (settle tick)

/-- `StopAll`. -/
def stopAll (s : Timer) : Timer :=
  { s.alive.foldl dispose s with delayqueue := ⟨[], s.delayqueue.next⟩, intervals := [] }

/-! ### The queue -/

/-- The actions in the queue, in its order. -/
def queued (s : Timer) : List DelayAction := s.delayqueue.nodes.map Node.val

/-- The elements that `Update(tick)` has to visit. -/
def due (s : Timer) (tick : Int) : List (Node Int DelayAction) :=
  s.delayqueue.nodes.filter fun n => n.key ≤ tick

/-- The others. -/
def notDue (s : Timer) (tick : Int) : List (Node Int DelayAction) :=
  s.delayqueue.nodes.filter fun n => tick < n.key

/-- The queue is in order, by the ticks that its actions have. -/
structure Sorted (s : Timer) : Prop where
  ordered : s.delayqueue.Ordered
  keyed : ∀ n ∈ s.delayqueue.nodes, n.key = n.val.tick

theorem Sorted.emplace {s : Timer} (h : s.Sorted) (a : DelayAction) :
    Sorted { s with delayqueue := s.delayqueue.emplace a.tick a } where
  ordered := h.ordered.emplace a.tick a
  keyed := by
    intro n hn
    rcases Multimap.mem_emplace.mp hn with rfl | hn
    · rfl
    · exact h.keyed n hn

/-- In the middle of the walk: `rest` is still to be visited and in front of the queue. -/
structure Walking (tick : Int) (rest : List (Node Int DelayAction)) (s : Timer) : Prop where
  sorted : s.Sorted
  due_le : ∀ n ∈ rest, n.key ≤ tick
  front : ∃ later, s.delayqueue.nodes = rest ++ later ∧ ∀ n ∈ later, tick < n.key

theorem Sorted.walking {s : Timer} (h : s.Sorted) (tick : Int) : Walking tick (s.due tick) s where
  sorted := h
  due_le := fun n hn => by simpa using (List.mem_filter.mp hn).2
  front := by
    refine ⟨s.notDue tick, h.ordered.split tick, ?_⟩
    exact fun n hn => by simpa using (List.mem_filter.mp hn).2

/-- What may happen between two rounds: actions are set that are due later. -/
structure Extends (tick : Int) (rest : List (Node Int DelayAction)) (s s' : Timer) : Prop where
  walking : Walking tick rest s'
  visits : s'.visits = s.visits
  intervals : s'.intervals = s.intervals
  added : ∃ new, s'.created = s.created ++ new ∧ s'.queued.Perm (s.queued ++ new)

section

variable {tick : Int} {rest : List (Node Int DelayAction)} {s s' : Timer}

theorem Walking.refl (h : Walking tick rest s) : Extends tick rest s s where
  walking := h
  visits := rfl
  intervals := rfl
  added := ⟨[], (List.append_nil _).symm, by rw [List.append_nil]⟩

theorem Extends.trans {s'' : Timer} (h : Extends tick rest s s') (h' : Extends tick rest s' s'') :
    Extends tick rest s s'' where
  walking := h'.walking
  visits := h'.visits.trans h.visits
  intervals := h'.intervals.trans h.intervals
  added := by
    obtain ⟨new, hcreated, hperm⟩ := h.added
    obtain ⟨new', hcreated', hperm'⟩ := h'.added
    refine ⟨new ++ new', by rw [hcreated', hcreated, List.append_assoc], ?_⟩
    rw [← List.append_assoc]
    exact hperm'.trans (hperm.append_right new')

/-- Only the counts of linkers change. -/
theorem Walking.recount (h : Walking tick rest s) (linkers : Nat → Nat) :
    Extends tick rest s { s with linkers := linkers } where
  walking := ⟨⟨h.sorted.ordered, h.sorted.keyed⟩, h.due_le, h.front⟩
  visits := rfl
  intervals := rfl
  added := ⟨[], (List.append_nil _).symm, by rw [List.append_nil]; rfl⟩

theorem queued_emplace (s : Timer) (a : DelayAction) :
    (({ s with delayqueue := s.delayqueue.emplace a.tick a } : Timer).queued).Perm
      (s.queued ++ [a]) := by
  have hperm := (Multimap.perm_emplace s.delayqueue a.tick a).map Node.val
  exact hperm.trans (List.perm_append_singleton a s.queued).symm

/-- What is due later comes to lie behind the rest of the walk. -/
theorem Walking.emplace (h : Walking tick rest s) {a : DelayAction} (ha : tick < a.tick) :
    Walking tick rest { s with delayqueue := s.delayqueue.emplace a.tick a } := by
  refine ⟨h.sorted.emplace a, h.due_le, ?_⟩
  obtain ⟨later, hnodes, hlater⟩ := h.front
  have hle : ∀ n ∈ rest, n.key ≤ a.tick := fun n hn =>
    le_of_lt (lt_of_le_of_lt (h.due_le n hn) ha)
  refine ⟨_, Multimap.nodes_emplace_append hnodes hle a, ?_⟩
  intro n hn
  rcases Multimap.mem_emplace.mp hn with rfl | hn
  · exact ha
  · exact hlater n hn

theorem Walking.add (h : Walking tick rest s) {timeout : Int} (ht : tick < timeout) (linked : Bool)
    (interval : Int) : Extends tick rest s (s.add timeout linked interval) := by
  let a : DelayAction := ⟨s.next, timeout, if linked then some s.next else none, interval⟩
  have hwalk := h.emplace (a := a) ht
  refine ⟨⟨⟨hwalk.sorted.ordered, hwalk.sorted.keyed⟩, hwalk.due_le, hwalk.front⟩, rfl, rfl, ?_⟩
  exact ⟨[a], rfl, queued_emplace s a⟩

theorem Walking.perform (h : Walking tick rest s) {op : Op} (hop : op.Later tick) :
    Extends tick rest s (s.perform op) := by
  cases op with
  | timeout delay now =>
      obtain ⟨hpos, hnow⟩ := hop
      exact h.add (by omega) false 0
  | timeoutWithLinker delay now keep =>
      obtain ⟨hpos, hnow⟩ := hop
      have hadd := h.add (show tick < delay + now by omega) true 0
      exact hadd.trans (hadd.walking.recount _)
  | intervalWithLinker interval now keep =>
      obtain ⟨hpos, hnow⟩ := hop
      have hadd := h.add (show tick < interval + now by omega) true interval
      exact hadd.trans (hadd.walking.recount _)
  | retain l =>
      simp only [Timer.perform]
      split
      · exact h.recount _
      · exact h.refl
  | release l =>
      simp only [Timer.perform]
      split
      · exact h.recount _
      · exact h.refl

theorem Walking.performs (h : Walking tick rest s) {ops : List Op} (hops : ∀ op ∈ ops, op.Later tick) :
    Extends tick rest s (ops.foldl Timer.perform s) := by
  induction ops generalizing s with
  | nil => exact h.refl
  | cons op ops ih =>
      have hone := h.perform (hops op List.mem_cons_self)
      exact hone.trans (ih hone.walking fun op' hop' => hops op' (List.mem_cons_of_mem op hop'))

end

/-! ### The walk -/

/-- What has happened when `n` has been visited in `s`: if it was run, the operations of its
    callback have been performed, in their order; the actions they have set are there, and it is
    not; if it repeats it is kept aside, else it has let its linker go. -/
structure Visited {tick : Int} (cb : Callbacks tick) (s : Timer) (n : Node Int DelayAction)
    (v : Visit) (s' : Timer) : Prop where
  action : v.action = n.val
  count : v.count = n.val.linker.map s.linkers
  fired_iff : v.fired = true ↔ v.action.linker = none ∨ v.count = some 2
  visits : s'.visits = s.visits ++ [v]
  performed : ∃ ops : List Op, ops = (if v.fired then cb.ops n.val s else []) ∧
    s'.created = s.created ++ sets s.next ops ∧
    s'.next = s.next + (sets s.next ops).length ∧
    (n.val :: s'.queued).Perm (s.queued ++ sets s.next ops) ∧
    s'.linkers = (if n.val.repeats then ops.foldl perform s
      else (ops.foldl perform s).dispose n.val).linkers

/-- One visit after the other, each in the state that the one before it has left. -/
inductive Visits {tick : Int} (cb : Callbacks tick) :
    Timer → List (Node Int DelayAction) → List Visit → Timer → Prop
  | done (s : Timer) : Visits cb s [] [] s
  | visit {s s1 s' : Timer} {n : Node Int DelayAction} {rest : List (Node Int DelayAction)}
      {v : Visit} {vs : List Visit} (one : Visited cb s n v s1) (more : Visits cb s1 rest vs s') :
      Visits cb s (n :: rest) (v :: vs) s'

/-- What the walk does with the elements in front of the queue: it visits them in their order,
    runs those that have no linker or one with two references, and takes them out; those that
    repeat are kept aside. -/
structure Walked (tick : Int) (rest done : List (Node Int DelayAction)) (s : Timer)
    (vs : List Visit) (s' : Timer) : Prop where
  walking : Walking tick rest s'
  visits : s'.visits = s.visits ++ vs
  each : vs.map Visit.action = done.map Node.val
  fired_iff : ∀ v ∈ vs, v.fired = true ↔ v.action.linker = none ∨ v.count = some 2
  intervals : s'.intervals = s.intervals ++ (done.map Node.val).filter DelayAction.repeats
  added : ∃ new, s'.created = s.created ++ new ∧
    (done.map Node.val ++ s'.queued).Perm (s.queued ++ new)

section

variable {tick : Int} {rest : List (Node Int DelayAction)} {s s' : Timer}
  {n : Node Int DelayAction}

/-- `operator()` as it is recorded. -/
def seen (s : Timer) (a : DelayAction) : Visit := ⟨a, a.linker.map s.linkers, s.fires a⟩

theorem seen_fired_iff (s : Timer) (a : DelayAction) :
    (s.seen a).fired = true ↔ a.linker = none ∨ (s.seen a).count = some 2 := by
  show s.fires a = true ↔ a.linker = none ∨ a.linker.map s.linkers = some 2
  unfold fires
  rcases a.linker with _ | l <;> simp

theorem Walking.call (h : Walking tick rest s) (cb : Callbacks tick) (a : DelayAction) :
    Extends tick rest { s with visits := s.visits ++ [s.seen a] } (s.call cb a) := by
  have hseen : Walking tick rest { s with visits := s.visits ++ [s.seen a] } :=
    ⟨⟨h.sorted.ordered, h.sorted.keyed⟩, h.due_le, h.front⟩
  unfold Timer.call
  split
  · exact hseen.performs (cb.later a s)
  · exact hseen.refl

/-- An element is taken out. -/
theorem Walking.erase (h : Walking tick (n :: rest) s) :
    Walking tick rest { s with delayqueue := (s.delayqueue.erase n.id).1 } ∧
      (s.delayqueue.erase n.id).2 = (s.delayqueue.erase n.id).1.first ∧
      n.val :: (({ s with delayqueue := (s.delayqueue.erase n.id).1 } : Timer).queued) =
        s.queued := by
  obtain ⟨later, hnodes, hlater⟩ := h.front
  have hfront : s.delayqueue.nodes = [] ++ n :: (rest ++ later) := hnodes
  have herase := h.sorted.ordered.erase_at hfront
  rw [herase]
  refine ⟨⟨⟨h.sorted.ordered.sublist ?_, ?_⟩, ?_, ⟨later, rfl, hlater⟩⟩, rfl, ?_⟩
  · rw [hnodes]
    exact List.sublist_cons_self n (rest ++ later)
  · exact fun m hm => h.sorted.keyed m (by rw [hnodes]; exact List.mem_cons_of_mem n hm)
  · exact fun m hm => h.due_le m (List.mem_cons_of_mem n hm)
  · rw [queued, queued, hnodes]
    rfl

/-- Operations do not look at the record of the visits. -/
theorem performs_visits (s : Timer) (vs : List Visit) (ops : List Op) :
    ops.foldl Timer.perform { s with visits := vs } =
      { ops.foldl Timer.perform s with visits := vs } := by
  induction ops generalizing s with
  | nil => rfl
  | cons op ops ih =>
      have hone : Timer.perform { s with visits := vs } op =
          { s.perform op with visits := vs } := by
        cases op with
        | timeout delay now => rfl
        | timeoutWithLinker delay now keep => rfl
        | intervalWithLinker interval now keep => rfl
        | retain l =>
            show (if s.owned l < s.linkers l then _ else _) = _
            rw [Timer.perform]
            split <;> rfl
        | release l =>
            show (if s.owned l < s.linkers l then _ else _) = _
            rw [Timer.perform]
            split <;> rfl
      rw [List.foldl_cons, List.foldl_cons, hone, ih]

theorem call_eq (cb : Callbacks tick) (s : Timer) (a : DelayAction) :
    s.call cb a = { (if s.fires a then cb.ops a s else []).foldl Timer.perform s with
      visits := s.visits ++ [s.seen a] } := by
  unfold Timer.call
  split
  · exact performs_visits s _ (cb.ops a s)
  · rfl

/-- What an operation sets is there afterwards. -/
theorem perform_sets (s : Timer) (op : Op) :
    (s.perform op).created = s.created ++ sets s.next [op] ∧
      (s.perform op).next = s.next + (sets s.next [op]).length ∧
      (s.perform op).queued.Perm (s.queued ++ sets s.next [op]) := by
  have hadd : ∀ timeout linked interval, (s.add timeout linked interval).queued.Perm
      (s.queued ++ [⟨s.next, timeout, if linked then some s.next else none, interval⟩]) :=
    fun timeout linked interval =>
      queued_emplace s ⟨s.next, timeout, if linked then some s.next else none, interval⟩
  cases op with
  | timeout delay now => exact ⟨rfl, rfl, hadd (delay + now) false 0⟩
  | timeoutWithLinker delay now keep => exact ⟨rfl, rfl, hadd (delay + now) true 0⟩
  | intervalWithLinker interval now keep => exact ⟨rfl, rfl, hadd (interval + now) true interval⟩
  | retain l =>
      simp only [sets, List.append_nil, Timer.perform]
      split <;> exact ⟨rfl, rfl, List.Perm.refl _⟩
  | release l =>
      simp only [sets, List.append_nil, Timer.perform]
      split <;> exact ⟨rfl, rfl, List.Perm.refl _⟩

theorem sets_cons (next : Nat) (op : Op) (ops : List Op) :
    sets next (op :: ops) = sets next [op] ++ sets (next + (sets next [op]).length) ops := by
  cases op <;> rfl

theorem performs_sets (s : Timer) (ops : List Op) :
    (ops.foldl Timer.perform s).created = s.created ++ sets s.next ops ∧
      (ops.foldl Timer.perform s).next = s.next + (sets s.next ops).length ∧
      (ops.foldl Timer.perform s).queued.Perm (s.queued ++ sets s.next ops) := by
  induction ops generalizing s with
  | nil => exact ⟨(List.append_nil _).symm, rfl, by rw [sets, List.append_nil]; rfl⟩
  | cons op ops ih =>
      obtain ⟨hcreated, hnext, hqueue⟩ := s.perform_sets op
      obtain ⟨hcreated', hnext', hqueue'⟩ := ih (s.perform op)
      rw [hnext] at hcreated' hnext' hqueue'
      rw [List.foldl_cons, sets_cons, List.length_append, ← List.append_assoc, ← hcreated,
        ← Nat.add_assoc, ← List.append_assoc]
      exact ⟨hcreated', hnext', hqueue'.trans (hqueue.append_right _)⟩

/-- One round, and what the callback has done in it. -/
theorem Walking.visited (h : Walking tick (n :: rest) s) (cb : Callbacks tick) :
    Visited cb s n (s.seen n.val) (s.visit cb n).1 := by
  obtain ⟨-, -, herase⟩ := (h.call cb n.val).walking.erase
  generalize hops : (if s.fires n.val then cb.ops n.val s else []) = ops
  have hcall := call_eq cb s n.val
  rw [hops] at hcall
  obtain ⟨hcreated, hnext, hqueue⟩ := s.performs_sets ops
  -- Neither the list aside nor the linker matters to the queue.
  have hvisit : (s.visit cb n).1 = { s.call cb n.val with
      delayqueue := ((s.call cb n.val).delayqueue.erase n.id).1
      intervals := (s.visit cb n).1.intervals
      linkers := (if n.val.repeats then ops.foldl Timer.perform s
        else (ops.foldl Timer.perform s).dispose n.val).linkers } := by
    rw [hcall]
    simp only [Timer.visit, hcall]
    split
    · rfl
    · unfold Timer.dispose
      split <;> rfl
  refine ⟨rfl, rfl, seen_fired_iff s n.val, ?_, ops, hops.symm, ?_, ?_, ?_, ?_⟩
  · rw [hvisit, hcall]
  · rw [hvisit, hcall]
    exact hcreated
  · rw [hvisit, hcall]
    exact hnext
  · have hqueued : (s.visit cb n).1.queued = Timer.queued { s.call cb n.val with
        delayqueue := ((s.call cb n.val).delayqueue.erase n.id).1 } := by
      rw [hvisit]
      rfl
    rw [hqueued, herase, hcall]
    exact hqueue
  · rw [hvisit]

/-- One round. -/
theorem Walking.visit (h : Walking tick (n :: rest) s) (cb : Callbacks tick) :
    Walked tick rest [n] s [s.seen n.val] (s.visit cb n).1 ∧
      (s.visit cb n).2 = (s.visit cb n).1.delayqueue.first := by
  have hcall := h.call cb n.val
  generalize hs1 : s.call cb n.val = s1 at hcall
  -- The action is kept aside or deleted; the queue is the same.
  obtain ⟨s2, hs2, hwalk2, hvisits2, hintervals2, hqueue2, hcreated2⟩ : ∃ s2 : Timer,
      s2 = (if n.val.repeats then { s1 with intervals := s1.intervals ++ [n.val] }
        else s1.dispose n.val) ∧ Walking tick (n :: rest) s2 ∧ s2.visits = s1.visits ∧
      s2.intervals = s1.intervals ++ [n.val].filter DelayAction.repeats ∧
      s2.queued = s1.queued ∧ s2.created = s1.created := by
    have hwalk := hcall.walking
    refine ⟨_, rfl, ?_⟩
    by_cases hrepeats : n.val.repeats = true
    · rw [if_pos hrepeats, List.filter_cons_of_pos hrepeats]
      exact ⟨⟨⟨hwalk.sorted.ordered, hwalk.sorted.keyed⟩, hwalk.due_le, hwalk.front⟩, rfl, rfl, rfl,
        rfl⟩
    · rw [if_neg hrepeats, List.filter_cons_of_neg hrepeats]
      unfold Timer.dispose
      split
      · exact ⟨hwalk, rfl, (List.append_nil _).symm, rfl, rfl⟩
      · exact ⟨(hwalk.recount _).walking, rfl, (List.append_nil _).symm, rfl, rfl⟩
  obtain ⟨hwalk3, hnext, hqueue3⟩ := hwalk2.erase
  have hvisit : s.visit cb n = ({ s2 with delayqueue := (s2.delayqueue.erase n.id).1 },
      (s2.delayqueue.erase n.id).2) := by
    simp only [Timer.visit, hs1, ← hs2]
  rw [hvisit]
  obtain ⟨new, hcreated, hperm⟩ := hcall.added
  refine ⟨⟨hwalk3, ?_, rfl, ?_, ?_, new, hcreated2.trans hcreated, ?_⟩, hnext⟩
  · exact hvisits2.trans hcall.visits
  · intro v hv
    rw [List.mem_singleton.mp hv]
    exact seen_fired_iff s n.val
  · show s2.intervals = _
    rw [hintervals2, hcall.intervals]
    rfl
  · rw [List.map_singleton, List.singleton_append, hqueue3, hqueue2]
    exact hperm

/-- The visits of a walk, one after the other. -/
def walk (cb : Callbacks tick) (rest : List (Node Int DelayAction)) (s : Timer) : Timer :=
  rest.foldl (fun s n => (s.visit cb n).1) s

/-- The loop is the walk over what is in front of the queue, by induction on that. -/
theorem updateLoop_eq (cb : Callbacks tick) {fuel : Nat} (h : Walking tick rest s)
    (hfuel : rest.length < fuel) :
    updateLoop cb fuel s.delayqueue.first s = some (walk cb rest s) := by
  induction rest generalizing s fuel with
  | nil =>
      obtain ⟨fuel, rfl⟩ := Nat.exists_eq_add_one_of_ne_zero (Nat.ne_zero_of_lt hfuel)
      obtain ⟨later, hnodes, hlater⟩ := h.front
      rw [List.nil_append] at hnodes
      rw [Multimap.first, hnodes]
      cases later with
      | nil => rfl
      | cons n later =>
          have hfind := h.sorted.ordered.find (n := n) (by rw [hnodes]; exact List.mem_cons_self)
          show updateLoop cb (fuel + 1) (some n.id) s = some s
          simp only [updateLoop, hfind, if_pos (hlater n List.mem_cons_self)]
  | cons n rest ih =>
      obtain ⟨fuel, rfl⟩ := Nat.exists_eq_add_one_of_ne_zero (Nat.ne_zero_of_lt hfuel)
      obtain ⟨later, hnodes, -⟩ := h.front
      have hmem : n ∈ s.delayqueue.nodes := by
        rw [hnodes]
        exact List.mem_append_left later List.mem_cons_self
      have hle : ¬tick < n.key := not_lt.mpr (h.due_le n List.mem_cons_self)
      obtain ⟨hone, hnext⟩ := h.visit cb
      rw [Multimap.first, hnodes]
      show updateLoop cb (fuel + 1) (some n.id) s = some (walk cb (n :: rest) s)
      simp only [updateLoop, h.sorted.ordered.find hmem, if_neg hle, hnext]
      exact ih hone.walking (Nat.lt_of_succ_lt_succ hfuel)

/-- The whole walk, from the rounds. -/
theorem walk_spec (cb : Callbacks tick) (h : Walking tick rest s) :
    ∃ vs, Walked tick [] rest s vs (walk cb rest s) ∧ Visits cb s rest vs (walk cb rest s) := by
  induction rest generalizing s with
  | nil =>
      refine ⟨[], ⟨h, (List.append_nil _).symm, rfl, ?_, (List.append_nil _).symm, [],
        (List.append_nil _).symm, by rw [List.append_nil]; rfl⟩, Visits.done s⟩
      exact fun v hv => absurd hv List.not_mem_nil
  | cons n rest ih =>
      obtain ⟨hone, -⟩ := h.visit cb
      obtain ⟨vs, hmore, hvisits⟩ := ih hone.walking
      refine ⟨s.seen n.val :: vs, ⟨hmore.walking, ?_, ?_, ?_, ?_, ?_⟩,
        Visits.visit (h.visited cb) hvisits⟩
      · rw [walk, List.foldl_cons, ← walk, hmore.visits, hone.visits, List.append_assoc,
          List.singleton_append]
      · rw [List.map_cons, hmore.each]
        rfl
      · intro v hv
        rcases List.mem_cons.mp hv with rfl | hv
        · exact seen_fired_iff s n.val
        · exact hmore.fired_iff v hv
      · rw [walk, List.foldl_cons, ← walk, hmore.intervals, hone.intervals, List.append_assoc,
          ← List.filter_append]
        rfl
      · obtain ⟨new, hcreated, hperm⟩ := hone.added
        obtain ⟨new', hcreated', hperm'⟩ := hmore.added
        refine ⟨new ++ new', ?_, ?_⟩
        · rw [walk, List.foldl_cons, ← walk, hcreated', hcreated, List.append_assoc]
        · have hcons := hperm'.cons n.val
          rw [← List.append_assoc]
          exact hcons.trans (hperm.append_right new')

end

/-! ### Putting the intervals back -/

section

variable {tick : Int} {s s' : Timer}

theorem reinsert_spec (tick : Int) (h : s.Sorted) (as : List DelayAction) :
    (as.foldl (reinsert tick) s).Sorted ∧
      (as.foldl (reinsert tick) s).queued.Perm (s.queued ++ as.map (DelayAction.rearm tick)) ∧
      (as.foldl (reinsert tick) s).visits = s.visits ∧
      (as.foldl (reinsert tick) s).created = s.created ∧
      (as.foldl (reinsert tick) s).linkers = s.linkers ∧
      (as.foldl (reinsert tick) s).next = s.next := by
  induction as generalizing s with
  | nil => exact ⟨h, by rw [List.map_nil, List.append_nil]; rfl, rfl, rfl, rfl, rfl⟩
  | cons a as ih =>
      obtain ⟨hsorted, hperm, hsame⟩ := ih (h.emplace (a.rearm tick))
      refine ⟨hsorted, hperm.trans ?_, hsame⟩
      have hone := (queued_emplace s (a.rearm tick)).append_right (as.map (DelayAction.rearm tick))
      rwa [List.append_assoc] at hone

/-- What `Update(tick)` does: it visits what is due, in the order of the queue, each once, and
    runs an action iff it has no linker or one with two references.  Then the queue holds what
    was not due, what was set meanwhile, and the intervals visited, at `tick` and their
    interval; and references and actions are what the callbacks run have made of them. -/
structure Updated {tick : Int} (cb : Callbacks tick) (s : Timer) (vs : List Visit) (s' : Timer) :
    Prop where
  visits : s'.visits = s.visits ++ vs
  each : vs.map Visit.action = (s.due tick).map Node.val
  order : (s.due tick).Pairwise Multimap.Before
  fired_iff : ∀ v ∈ vs, v.fired = true ↔ v.action.linker = none ∨ v.count = some 2
  performed : ∃ s1, Visits cb s (s.due tick) vs s1 ∧ s'.created = s1.created ∧
    s'.next = s1.next ∧ s'.linkers = s1.linkers
  sorted : s'.Sorted
  intervals : s'.intervals = []
  queue : ∃ new, s'.created = s.created ++ new ∧
    s'.queued.Perm ((s.notDue tick).map Node.val ++ new ++
      (((s.due tick).map Node.val).filter DelayAction.repeats).map (DelayAction.rearm tick))

/-- **`Update` visits what is due, runs the callbacks and puts back what repeats**, whatever the
    callbacks do. -/
theorem update_spec (s : Timer) (tick : Int) (cb : Callbacks tick) (h : s.Sorted)
    (hnone : s.intervals = []) :
    ∃ vs s', (∀ fuel, (s.due tick).length < fuel → s.update cb fuel = some s') ∧
      Updated cb s vs s' := by
  have horder : (s.due tick).Pairwise Multimap.Before :=
    h.ordered.before.sublist List.filter_sublist
  by_cases hempty : s.delayqueue.nodes.isEmpty = true
  · have hdue : s.due tick = [] := by
      rw [due, List.isEmpty_iff.mp hempty]
      rfl
    have hqueued : s.queued = [] := by
      rw [queued, List.isEmpty_iff.mp hempty]
      rfl
    have hnotDue : s.notDue tick = [] := by
      rw [notDue, List.isEmpty_iff.mp hempty]
      rfl
    refine ⟨[], s, ?_, (List.append_nil _).symm, ?_, horder, ?_, ?_, h, hnone, [],
      (List.append_nil _).symm, ?_⟩
    · intro fuel _
      rw [update, if_pos hempty]
    · rw [hdue]
      rfl
    · exact fun v hv => absurd hv List.not_mem_nil
    · rw [hdue]
      exact ⟨s, Visits.done s, rfl, rfl, rfl⟩
    · rw [hqueued, hdue, hnotDue]
      rfl
  · have hwalking := h.walking tick
    obtain ⟨vs, hwalk, hperformed⟩ := walk_spec cb hwalking
    generalize hs1 : walk cb (s.due tick) s = s1 at hwalk hperformed
    obtain ⟨hsorted, hperm, hvisits, hcreated, hlinkers, hnext⟩ :=
      reinsert_spec tick hwalk.walking.sorted s1.intervals
    obtain ⟨new, hnew, hqueue⟩ := hwalk.added
    have hintervals := hwalk.intervals
    rw [hnone, List.nil_append] at hintervals
    refine ⟨vs, s1.settle tick, ?_, hvisits.trans hwalk.visits, hwalk.each, horder, hwalk.fired_iff,
      ⟨s1, hperformed, hcreated, hnext, hlinkers⟩, ⟨hsorted.ordered, hsorted.keyed⟩, rfl, new,
      hcreated.trans hnew, ?_⟩
    · intro fuel hfuel
      rw [update, if_neg hempty, updateLoop_eq cb hwalking hfuel, Option.map_some, hs1]
    · have hsplit : s.queued = (s.due tick).map Node.val ++ (s.notDue tick).map Node.val := by
        rw [queued, h.ordered.split tick, List.map_append]
        rfl
      rw [hsplit, List.append_assoc, List.perm_append_left_iff] at hqueue
      rw [← hintervals]
      exact hperm.trans (hqueue.append_right _)

/-- The callback of a timeout sets another one and releases the linker 1. -/
def again (tick : Int) : Callbacks tick :=
  ⟨fun a _ => if a.repeats then [] else [.timeout 1 tick, .release 1], by
    intro a s op hop
    split at hop
    · exact absurd hop List.not_mem_nil
    · rcases List.mem_pair.mp hop with rfl | rfl
      · exact ⟨by decide, le_refl tick⟩
      · exact trivial⟩

/-- A timeout and an interval are due at 5. -/
def twoDue : Timer := [Op.timeout 5 0, .intervalWithLinker 5 0 1].foldl perform init

/-- The callback of the timeout is run, so that the interval is not. -/
theorem update_spec_twoDue :
    ∃ vs s', (∀ fuel, (twoDue.due 5).length < fuel → twoDue.update (again 5) fuel = some s') ∧
      Updated (again 5) twoDue vs s' ∧
      s'.visits = [⟨⟨0, 5, none, 0⟩, none, true⟩, ⟨⟨1, 5, some 1, 5⟩, some 1, false⟩] ∧
      s'.queued = [⟨2, 6, none, 0⟩, ⟨1, 10, some 1, 5⟩] := by
  have hsorted : twoDue.Sorted := by
    constructor
    · exact (Multimap.ordered_empty.emplace _ _).emplace _ _
    · intro n hn
      rcases Multimap.mem_emplace.mp hn with rfl | hn
      · rfl
      · rcases Multimap.mem_emplace.mp hn with rfl | hn
        · rfl
        · exact absurd hn List.not_mem_nil
  obtain ⟨vs, s', hupdate, hupdated⟩ := update_spec twoDue 5 (again 5) hsorted rfl
  have hresult : (twoDue.update (again 5) 3).map (fun s => (s.visits, s.queued)) =
      some ([⟨⟨0, 5, none, 0⟩, none, true⟩, ⟨⟨1, 5, some 1, 5⟩, some 1, false⟩],
        [⟨2, 6, none, 0⟩, ⟨1, 10, some 1, 5⟩]) := by decide
  rw [hupdate 3 (by decide), Option.map_some, Option.some.injEq, Prod.mk.injEq] at hresult
  exact ⟨vs, s', hupdate, hupdated, hresult⟩

end

end Timer

end Jengine.Base
