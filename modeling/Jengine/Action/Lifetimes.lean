import Jengine.Action.Schedule

/-!
# How long actions and executors live

The scheduler holds a reference to each action in a list and one to each registered executor.
Code that gives up its own references only, and only once, never sees an object destroyed that
`Update` still needs.
-/

namespace Jengine.Action.Scheduler

open Jengine.Lib

variable {ε ι κ : Type} [DecidableEq ε] [DecidableEq ι]

/-- All references to executors and actions. -/
def references (s : Scheduler ε ι κ) : List (Object ε ι) := s.held ++ s.kept

/-- One more reference can be counted. -/
def Room (s : Scheduler ε ι κ) (o : Object ε ι) : Prop := s.references.count o + 1 < 2 ^ 32

/-- Code uses what there is a reference to, and gives up what it holds. -/
def Disciplined (s : Scheduler ε ι κ) : Input ε ι κ → Prop
  | .newExecutor e => .executor e ∉ s.heap.created
  | .newAction i _ => .action i ∉ s.heap.created
  | .retain o => o ∈ s.references ∧ Room s o
  | .release o => o ∈ s.held
  | .runAction e i =>
      .executor e ∈ s.references ∧ .action i ∈ s.references ∧ s.link i = none ∧
        Room s (.executor e) ∧ Room s (.action i)
  | .stop i => .action i ∈ s.references
  | .stopAllAction e => .executor e ∈ s.references
  | .beginStopAllAction e _ => .executor e ∈ s.references
  | .update _ => True
  | .next => True

instance (s : Scheduler ε ι κ) (o : Object ε ι) : Decidable (Room s o) := Nat.decLt _ _

instance (s : Scheduler ε ι κ) : (a : Input ε ι κ) → Decidable (Disciplined s a)
  | .newExecutor _ | .newAction _ _ => instDecidableNot
  | .retain _ | .runAction _ _ => instDecidableAnd
  | .release _ | .stop _ | .stopAllAction _ | .beginStopAllAction _ _ =>
      List.instDecidableMemOfLawfulBEq _ _
  | .update _ | .next => instDecidableTrue

/-- The executor whose `OnAllActionFinish` runs. -/
def finishing (s : Scheduler ε ι κ) : Option ε :=
  match s.walk with
  | .finishing e _ => some e
  | _ => none

/-- The references that the lists hold are those to what is in them. -/
structure Owned (s : Scheduler ε ι κ) : Prop where
  sound : s.heap.Sound ↑s.references
  leaves : ∀ o, s.heap.members o = []
  kept_action : ∀ i, s.kept.count (.action i) = if s.link i = none then 0 else 1
  kept_executor : ∀ e, s.kept.count (.executor e) =
    (s.registered e).toNat + if s.finishing = some e then 1 else 0

variable {s t : Scheduler ε ι κ} {e : ε} {i : ι} {o : Object ε ι}

theorem owned_start : Owned (start : Scheduler ε ι κ) where
  sound := Heap.sound_empty
  leaves := fun _ => rfl
  kept_action := fun _ => rfl
  kept_executor := fun _ => rfl

theorem Owned.alive (h : Owned s) : s.heap.Alive o ↔ o ∈ s.references := by
  rw [h.sound.alive, Heap.inner_leaves h.leaves, add_zero, Multiset.mem_coe]

theorem Owned.count (h : Owned s) (ho : s.heap.Alive o) :
    (s.heap.count o).toNat = s.references.count o := by
  rw [h.sound.count o ho, Heap.inner_leaves h.leaves, add_zero, Multiset.coe_count]

theorem Owned.mem_kept_action (h : Owned s) : .action i ∈ s.kept ↔ s.link i ≠ none := by
  rw [← List.count_pos_iff, h.kept_action]
  split
  · simp [*]
  · simp [*]

theorem Owned.mem_kept_executor (h : Owned s) :
    .executor e ∈ s.kept ↔ s.registered e = true ∨ s.finishing = some e := by
  rw [← List.count_pos_iff, h.kept_executor]
  by_cases hfinishing : s.finishing = some e
  · simp [hfinishing]
  · cases s.registered e <;> simp [hfinishing]

/-- What is in a list is there. -/
theorem Owned.linked (h : Owned s) (hi : s.link i ≠ none) : s.heap.Alive (.action i) :=
  h.alive.mpr (List.mem_append_right _ (h.mem_kept_action.mpr hi))

theorem Owned.registered (h : Owned s) (he : s.registered e = true) :
    s.heap.Alive (.executor e) :=
  h.alive.mpr (List.mem_append_right _ (h.mem_kept_executor.mpr (Or.inl he)))

/-- Nothing has happened to the references. -/
theorem Owned.same (h : Owned s) (hheap : t.heap = s.heap) (hheld : t.held = s.held)
    (hkept : t.kept = s.kept) (hlink : t.link = s.link) (hregistered : t.registered = s.registered)
    (hfinishing : t.finishing = s.finishing) : Owned t := by
  constructor
  · rw [hheap, references, hheld, hkept]
    exact h.sound
  · rw [hheap]
    exact h.leaves
  · rw [hkept, hlink]
    exact h.kept_action
  · rw [hkept, hregistered, hfinishing]
    exact h.kept_executor

theorem Owned.access (h : Owned s) {os : List (Object ε ι)} (hos : ∀ o ∈ os, s.heap.Alive o) :
    Owned (s.access os) :=
  h.same (Heap.access_eq hos) rfl rfl rfl rfl rfl

/-- A reference is taken. -/
theorem sound_retain (h : Owned s) (ho : o ∈ s.references) (hroom : Room s o)
    {refs : List (Object ε ι)} (hrefs : refs.Perm (o :: s.references)) :
    (s.heap.retain o).Sound ↑refs ∧ ∀ p, (s.heap.retain o).members p = [] := by
  refine ⟨?_, h.leaves⟩
  rw [Multiset.coe_eq_coe.mpr hrefs, ← Multiset.cons_coe]
  apply h.sound.retain (h.alive.mpr ho)
  rw [Heap.inner_leaves h.leaves, add_zero, Multiset.coe_count]
  exact hroom

/-- A reference is given up. -/
theorem sound_release (h : Owned s) {refs : List (Object ε ι)}
    (hrefs : s.references.Perm (o :: refs)) :
    (s.heap.release o).1.Sound ↑refs ∧ ∀ p, (s.heap.release o).1.members p = [] := by
  have hsound := h.sound
  rw [Multiset.coe_eq_coe.mpr hrefs, ← Multiset.cons_coe] at hsound
  have hreleased := hsound.release
  rw [Heap.release_leaf (h.leaves o), Multiset.coe_nil, zero_add] at hreleased
  refine ⟨hreleased, fun p => ?_⟩
  rw [(Heap.release_fewer s.heap o).2.1]
  exact h.leaves p

theorem sound_create (h : Owned s) (ho : o ∉ s.heap.created) :
    (s.heap.create o []).Sound ↑(o :: s.references) ∧
      ∀ p, (s.heap.create o []).members p = [] := by
  refine ⟨?_, fun p => ?_⟩
  · rw [← Multiset.cons_coe]
    apply Heap.Sound.create _ ho
    rw [Multiset.coe_nil, zero_add]
    exact h.sound
  · by_cases hp : p = o
    · rw [hp]
      exact Function.update_self ..
    · have hother : (s.heap.create o []).members p = s.heap.members p :=
        Function.update_of_ne hp _ _
      rw [hother]
      exact h.leaves p

theorem perm_release_kept (hkept : o ∈ s.kept) :
    s.references.Perm (o :: (s.held ++ s.kept.erase o)) :=
  ((List.perm_cons_erase hkept).append_left _).trans List.perm_middle

/-- The list gives up its reference to the action at the cursor. -/
theorem Owned.drop (h : Owned s) (hs : Linked s) {cur : ι} {rest : List ι} {left : List ε}
    (hwhere : s.walk = .walking e (cur :: rest) left ∨ s.walk = .running e cur rest left)
    (hos : ∀ o ∈ [.executor e, .action cur], s.heap.Alive o) : Owned (s.drop e cur rest left) := by
  have hlink : s.link cur = some e := (hs.cursor hwhere).1
  have hcur : .action cur ∈ s.kept := h.mem_kept_action.mpr (by simp [hlink])
  have hrel := sound_release h (perm_release_kept hcur)
  have hsame : s.heap.access [.executor e, .action cur] = s.heap := Heap.access_eq hos
  have hheap : (s.drop e cur rest left).heap = (s.heap.release (.action cur)).1 := by
    rw [← hsame]
    rfl
  constructor
  · rw [hheap]
    exact hrel.1
  · rw [hheap]
    exact hrel.2
  · intro i
    have hkept : (s.drop e cur rest left).kept = s.kept.erase (.action cur) := rfl
    have hnow : (s.drop e cur rest left).link = Function.update s.link cur none := rfl
    rw [hkept, hnow, List.count_erase, h.kept_action]
    by_cases hi : cur = i
    · subst hi
      simp [hlink]
    · simp [hi, Ne.symm hi]
  · intro e'
    have hkept : (s.drop e cur rest left).kept = s.kept.erase (.action cur) := rfl
    have hregistered : (s.drop e cur rest left).registered = s.registered := rfl
    have hnow : (s.drop e cur rest left).finishing = none := rfl
    have hfinishing : s.finishing = none := by
      rcases hwhere with hwalk | hwalk <;> rw [Scheduler.finishing, hwalk]
    rw [hkept, hregistered, hnow, List.count_erase, h.kept_executor, hfinishing]
    simp

/-- The list of executors gives up its reference after `OnAllActionFinish`. -/
theorem Owned.forget (h : Owned s) {left : List ε} (hwalk : s.walk = .finishing e left) :
    Owned (s.forget e left) := by
  have hfinishing : s.finishing = some e := by rw [Scheduler.finishing, hwalk]
  have he : .executor e ∈ s.kept := h.mem_kept_executor.mpr (Or.inr hfinishing)
  have hrel := sound_release h (perm_release_kept he)
  have hkept : (s.forget e left).kept = s.kept.erase (.executor e) := rfl
  constructor
  · exact hrel.1
  · exact hrel.2
  · intro i
    have hlink : (s.forget e left).link = s.link := rfl
    rw [hkept, hlink, List.count_erase, h.kept_action]
    simp
  · intro e'
    have hnow : (s.forget e left).finishing = none := rfl
    have hregistered : (s.forget e left).registered = s.registered := rfl
    rw [hkept, hnow, hregistered, List.count_erase, h.kept_executor, hfinishing]
    by_cases heq : e = e' <;> simp [heq]

/-- An executor that is erased is needed until `OnAllActionFinish` is over. -/
theorem Owned.finish (h : Owned s) (hs : Linked s) {left : List ε}
    (hwalk : s.walk = .visiting (e :: left)) : Owned (s.finish e left) := by
  have hregistered : s.registered e = true := by
    rw [hs.mem_executors]
    simp [executors, here, hwalk]
  have halive : ∀ o ∈ [Object.executor e], s.heap.Alive o := by
    simpa using h.registered hregistered
  have haccess := h.access halive
  constructor
  · exact haccess.sound
  · exact haccess.leaves
  · exact haccess.kept_action
  · intro e'
    have hold := h.kept_executor e'
    have hnone : s.finishing = none := by rw [Scheduler.finishing, hwalk]
    have hnow : (s.finish e left).finishing = some e := rfl
    have hkept : (s.finish e left).kept = s.kept := rfl
    have hflags : (s.finish e left).registered = Function.update s.registered e false := rfl
    rw [hnone] at hold
    rw [hkept, hnow, hflags, hold]
    by_cases heq : e' = e
    · subst heq
      simp [hregistered]
    · simp [heq, Ne.symm heq]

theorem Owned.next (h : Owned s) (hs : Linked s) : Owned s.next := by
  -- the executor at the cursor is registered, the action is in its list
  have hexecutor : ∀ e, e ∈ s.here → ∀ o ∈ [Object.executor e], s.heap.Alive o := by
    intro e he
    have hregistered : s.registered e = true :=
      (hs.mem_executors e).mpr (List.mem_append_right _ he)
    simpa using h.registered hregistered
  have hcursor : ∀ e cur rest left,
      s.walk = .walking e (cur :: rest) left ∨ s.walk = .running e cur rest left →
        ∀ o ∈ [.executor e, .action cur], s.heap.Alive o := by
    intro e cur rest left hwhere
    have hhere : e ∈ s.here := by rcases hwhere with hwalk | hwalk <;> simp [here, hwalk]
    have hlink : s.link cur = some e := (hs.cursor hwhere).1
    have hcur := h.linked (i := cur) (by simp [hlink])
    simpa [hcur] using hexecutor e hhere
  apply next_cases (P := Owned) s
  case idle => exact fun _ => h
  case endFrame =>
    intro hwalk
    exact h.same rfl rfl rfl rfl rfl (by simp [Scheduler.finishing, endFrame, hwalk])
  case finish => exact fun e left hwalk _ => h.finish hs hwalk
  case enter =>
    intro e left hwalk _
    refine (h.access (hexecutor e (by simp [here, hwalk]))).same rfl rfl rfl rfl rfl ?_
    simp [Scheduler.finishing, Scheduler.enter, hwalk, Scheduler.access]
  case forget => exact fun e left hwalk => h.forget hwalk
  case leave =>
    intro e left hwalk
    refine (h.access (hexecutor e (by simp [here, hwalk]))).same rfl rfl rfl rfl rfl ?_
    simp [Scheduler.finishing, Scheduler.leave, hwalk, Scheduler.access]
  case call =>
    intro e cur rest left hwalk _
    refine (h.access (hcursor e cur rest left (Or.inl hwalk))).same rfl rfl rfl rfl rfl ?_
    simp [Scheduler.finishing, Scheduler.call, hwalk, Scheduler.access]
  case drop =>
    intro e cur rest left hwhere
    have hwhere := hwhere.imp And.left And.left
    exact h.drop hs hwhere (hcursor e cur rest left hwhere)
  case pass =>
    intro e cur rest left hwalk _ _
    refine (h.access (hcursor e cur rest left (Or.inr hwalk))).same rfl rfl rfl rfl rfl ?_
    simp [Scheduler.finishing, Scheduler.pass, hwalk, Scheduler.access]

theorem Owned.registerNode (h : Owned s) (he : .executor e ∈ s.references)
    (hroom : Room s (.executor e)) : Owned (s.registerNode e) := by
  rw [Scheduler.registerNode]
  split
  · exact h
  · rename_i hnot
    have hperm : (s.held ++ .executor e :: s.kept).Perm (.executor e :: s.references) :=
      List.perm_middle
    obtain ⟨hsound, hleaves⟩ := sound_retain h he hroom hperm
    refine ⟨hsound, hleaves, ?_, ?_⟩
    · intro i
      change (Object.executor e :: s.kept).count (.action i) = if s.link i = none then 0 else 1
      rw [List.count_cons, h.kept_action]
      simp
    · intro e'
      change (Object.executor e :: s.kept).count (.executor e') =
        (Function.update s.registered e true e').toNat + if s.finishing = some e' then 1 else 0
      rw [List.count_cons, h.kept_executor]
      by_cases heq : e = e'
      · subst heq
        simp [Bool.eq_false_iff.mpr hnot, Nat.add_comm]
      · simp [heq, Ne.symm heq]

theorem count_registerNode (s : Scheduler ε ι κ) (e : ε) (i : ι) :
    (s.registerNode e).references.count (.action i) = s.references.count (.action i) := by
  rw [Scheduler.registerNode]
  split
  · rfl
  · have hne : Object.executor e ≠ (.action i : Object ε ι) := fun heq => by cases heq
    have hperm : (s.held ++ .executor e :: s.kept).Perm (.executor e :: s.references) :=
      List.perm_middle
    exact (hperm.count_eq _).trans (List.count_cons_of_ne hne)

theorem Owned.runAction (h : Owned s) (he : .executor e ∈ s.references)
    (hi : .action i ∈ s.references) (hlink : s.link i = none) (hroom : Room s (.executor e))
    (hroom' : Room s (.action i)) : Owned (s.runAction e i) := by
  have haccess : Owned (s.access [.executor e]) := by
    apply h.access
    simpa using h.alive.mpr he
  have hnode : Owned ((s.access [.executor e]).registerNode e) := haccess.registerNode he hroom
  obtain ⟨t, ht⟩ : ∃ t, t = (s.access [.executor e]).registerNode e := ⟨_, rfl⟩
  have hcount : t.references.count (.action i) = s.references.count (.action i) := by
    rw [ht, count_registerNode]
    rfl
  have hmem : .action i ∈ t.references := by
    rw [← List.count_pos_iff, hcount, List.count_pos_iff]
    exact hi
  have hroom'' : Room t (.action i) := by
    rw [Room, hcount]
    exact hroom'
  rw [← ht] at hnode
  have hperm : (t.held ++ .action i :: t.kept).Perm (.action i :: t.references) :=
    List.perm_middle
  obtain ⟨hsound, hleaves⟩ := sound_retain hnode hmem hroom'' hperm
  have hrun : s.runAction e i =
      { t.keep (.action i) with
        ahead := Function.update t.ahead e (i :: t.ahead e)
        link := Function.update t.link i (some e)
        ran := Function.update t.ran i (some (t.kind i, t.due e))
        ticks := Function.update t.ticks i [] } := by
    rw [ht]
    rfl
  have hold : t.link = s.link := by
    obtain ⟨passed, registered, heap, kept, hframe⟩ := registerNode_frame (s.access [.executor e]) e
    rw [ht, hframe]
    rfl
  rw [hrun]
  refine ⟨hsound, hleaves, ?_, ?_⟩
  · intro j
    change (Object.action i :: t.kept).count (.action j) =
      if Function.update t.link i (some e) j = none then 0 else 1
    rw [List.count_cons, hnode.kept_action]
    by_cases heq : i = j
    · subst heq
      simp [hold, hlink]
    · simp [heq, Ne.symm heq]
  · intro e'
    change (Object.action i :: t.kept).count (.executor e') =
      (t.registered e').toNat + if t.finishing = some e' then 1 else 0
    rw [List.count_cons, hnode.kept_executor]
    simp

theorem alive_actions (h : Owned s) (hs : Linked s) (he : .executor e ∈ s.references) :
    ∀ o ∈ .executor e :: (s.actions e).map Object.action, s.heap.Alive o := by
  intro o ho
  rcases List.mem_cons.mp ho with rfl | ho
  · exact h.alive.mpr he
  · obtain ⟨i, hi, rfl⟩ := List.mem_map.mp ho
    have hlink := (hs.mem_actions i e).mp hi
    exact h.linked (by simp [hlink])

theorem Owned.step (h : Owned s) (hs : Linked s) {a : Input ε ι κ} (ha : Disciplined s a) :
    Owned (s.step a) := by
  cases a with
  | newExecutor e =>
    obtain ⟨hsound, hleaves⟩ := sound_create h ha
    exact ⟨hsound, hleaves, h.kept_action, h.kept_executor⟩
  | newAction i kind =>
    obtain ⟨hsound, hleaves⟩ := sound_create h ha
    exact ⟨hsound, hleaves, h.kept_action, h.kept_executor⟩
  | retain o =>
    obtain ⟨hsound, hleaves⟩ := sound_retain h ha.1 ha.2 (List.Perm.refl _)
    exact ⟨hsound, hleaves, h.kept_action, h.kept_executor⟩
  | release o =>
    have hrefs : s.references.Perm (o :: (s.held.erase o ++ s.kept)) :=
      (List.perm_cons_erase ha).append_right s.kept
    obtain ⟨hsound, hleaves⟩ := sound_release h hrefs
    exact ⟨hsound, hleaves, h.kept_action, h.kept_executor⟩
  | runAction e i =>
    obtain ⟨he, hi, hlink, hroom, hroom'⟩ := ha
    exact h.runAction he hi hlink hroom hroom'
  | stop i =>
    have haccess : Owned (s.access [.action i]) := h.access (by simpa using h.alive.mpr ha)
    exact haccess.same rfl rfl rfl rfl rfl rfl
  | stopAllAction e =>
    exact (h.access (alive_actions h hs ha)).same rfl rfl rfl rfl rfl rfl
  | beginStopAllAction e cb =>
    simp only [Scheduler.step, beginStopAllAction]
    split
    · have haccess : Owned (s.access [.executor e]) := h.access (by simpa using h.alive.mpr ha)
      exact haccess.same rfl rfl rfl rfl rfl rfl
    · exact (h.access (alive_actions h hs ha)).same rfl rfl rfl rfl rfl rfl
  | update f =>
    by_cases hwalk : s.walk = .idle
    · refine h.same ?_ ?_ ?_ ?_ ?_ ?_ <;> simp [Scheduler.step, Scheduler.finishing, hwalk]
    · have hstep : s.step (.update f) = s := by simp only [Scheduler.step]
      rw [hstep]
      exact h
  | next => exact h.next hs

/-- What is run is in no list. -/
theorem Owned.unlinked (h : Owned s) {a : Input ε ι κ} (ha : Disciplined s a) : Unlinked s a := by
  cases a with
  | newAction i kind =>
    by_contra hlink
    exact ha (h.linked hlink).1
  | runAction e i => exact ha.2.2.1
  | _ => exact trivial

/-- **Nothing is used that has been destroyed.**  The counts are right in every state, an action
    is there as long as code holds a reference to it or it is in a list, and an executor as long
    as code holds one, or it is registered or not yet done with `OnAllActionFinish`. -/
theorem run_owned (as : List (Input ε ι κ)) (has : Along step Disciplined start as) :
    let s := run step start as
    s.heap.fault = false ∧ s.heap.destroyed.Nodup ∧
      (∀ o, s.heap.Alive o → (s.heap.count o).toNat = s.references.count o) ∧
      (∀ i, s.heap.Alive (.action i) ↔ .action i ∈ s.held ∨ s.link i ≠ none) ∧
      ∀ e, s.heap.Alive (.executor e) ↔
        .executor e ∈ s.held ∨ s.registered e = true ∨ s.finishing = some e := by
  have hboth : Linked (run step (start : Scheduler ε ι κ) as) ∧ Owned (run step start as) := by
    apply run_invariant (I := fun s : Scheduler ε ι κ => Linked s ∧ Owned s) _ _ has
    · exact fun s a h ha => ⟨h.1.step (h.2.unlinked ha), h.2.step h.1 ha⟩
    · exact ⟨linked_start, owned_start⟩
  obtain ⟨-, h⟩ := hboth
  refine ⟨h.sound.fault, h.sound.destroyed, fun o ho => h.count ho, fun i => ?_, fun e => ?_⟩
  · rw [h.alive, references, List.mem_append, h.mem_kept_action]
  · rw [h.alive, references, List.mem_append, h.mem_kept_executor]

/-- The code that runs the two actions gives them up at once, and the executor while the second
    one is called. -/
def givenUp : List (Input Nat Nat Nat) :=
  [.newExecutor 0, .newAction 0 (.nextCall false), .runAction 0 0, .release (.action 0),
    .newAction 1 (.timeout 20 0), .runAction 0 1, .release (.action 1), .update ⟨100, 10⟩, .next,
    .next, .stop 0, .next, .next, .release (.executor 0)] ++
    List.replicate 3 .next ++ oneFrame ⟨110, 10⟩ 6 ++ oneFrame ⟨120, 10⟩ 3

example : (run step start givenUp).heap.destroyed = [.action 0, .action 1, .executor 0] := by decide

theorem run_owned_givenUp :
    let s := run step start givenUp
    s.heap.fault = false ∧ s.heap.destroyed.Nodup ∧
      (∀ o, s.heap.Alive o → (s.heap.count o).toNat = s.references.count o) ∧
      (∀ i, s.heap.Alive (.action i) ↔ .action i ∈ s.held ∨ s.link i ≠ none) ∧
      ∀ e, s.heap.Alive (.executor e) ↔
        .executor e ∈ s.held ∨ s.registered e = true ∨ s.finishing = some e :=
  run_owned givenUp (by decide)

end Jengine.Action.Scheduler
