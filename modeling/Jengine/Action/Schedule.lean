import Jengine.Action.Scheduler
import Mathlib.Data.List.Nodup

/-!
# When actions are updated

Code runs and stops actions between two frames and in the callbacks of other actions.  What
becomes of an action does not depend on it: as long as nobody stops it, it is updated once in
each frame, from the first one on that reaches its executor after `RunAction`, until it is done.
-/

namespace Jengine.Action.Scheduler

open Jengine.Lib

variable {ε ι κ : Type} [DecidableEq ε] [DecidableEq ι]

/-- Nothing is run that is in a list. -/
def Unlinked (s : Scheduler ε ι κ) : Input ε ι κ → Prop
  | .newAction i _ => s.link i = none
  | .runAction _ i => s.link i = none
  | _ => True

instance (s : Scheduler ε ι κ) (a : Input ε ι κ) : Decidable (Unlinked s a) := by
  cases a <;> unfold Unlinked <;> infer_instance

/-! ### The lists -/

/-- The hooks and the flags say what is in the lists. -/
structure Linked (s : Scheduler ε ι κ) : Prop where
  actions_nodup : ∀ e, (s.actions e).Nodup
  mem_actions : ∀ i e, i ∈ s.actions e ↔ s.link i = some e
  executors_nodup : s.executors.Nodup
  mem_executors : ∀ e, s.registered e = true ↔ e ∈ s.executors
  busy : ∀ e, s.actions e ≠ [] → e ∈ s.executors

variable {s t : Scheduler ε ι κ} {e : ε} {i : ι}

omit [DecidableEq ι] in
theorem linked_start : Linked (start : Scheduler ε ι κ) where
  actions_nodup := fun _ => List.nodup_nil
  mem_actions := fun i e => by simp [actions, start]
  executors_nodup := List.nodup_nil
  mem_executors := fun e => by simp [executors, here, start]
  busy := fun e h => by simp [actions, start] at h

omit [DecidableEq ι] in
/-- The lists are the same. -/
theorem Linked.same (h : Linked s) (hactions : t.actions = s.actions) (hlink : t.link = s.link)
    (hexecutors : t.executors = s.executors) (hregistered : t.registered = s.registered) :
    Linked t := by
  constructor
  · rw [hactions]
    exact h.actions_nodup
  · rw [hactions, hlink]
    exact h.mem_actions
  · rw [hexecutors]
    exact h.executors_nodup
  · rw [hregistered, hexecutors]
    exact h.mem_executors
  · rw [hactions, hexecutors]
    exact h.busy

/-- An action has been erased. -/
theorem Linked.erased (h : Linked s) (hactions : ∀ e, t.actions e = (s.actions e).erase i)
    (hlink : t.link = Function.update s.link i none) (hexecutors : t.executors = s.executors)
    (hregistered : t.registered = s.registered) : Linked t := by
  constructor
  · intro e
    rw [hactions]
    exact (h.actions_nodup e).erase i
  · intro j e
    rw [hactions, (h.actions_nodup e).mem_erase_iff, h.mem_actions, hlink]
    by_cases hj : j = i
    · simp [hj]
    · simp [hj]
  · rw [hexecutors]
    exact h.executors_nodup
  · rw [hregistered, hexecutors]
    exact h.mem_executors
  · intro e hne
    rw [hexecutors]
    apply h.busy
    intro hnil
    rw [hactions, hnil] at hne
    exact hne rfl

/-- What a registration leaves as it is. -/
theorem registerNode_frame (s : Scheduler ε ι κ) (e : ε) :
    ∃ passed registered heap kept, s.registerNode e =
      { s with passed := passed, registered := registered, heap := heap, kept := kept } := by
  rw [registerNode]
  split
  · exact ⟨s.passed, s.registered, s.heap, s.kept, rfl⟩
  · exact ⟨_, _, _, _, rfl⟩

/-- What `RunAction` leaves as it is, and what it does to the action. -/
theorem runAction_frame (s : Scheduler ε ι κ) (e : ε) (i : ι) :
    ∃ passed registered heap kept, s.runAction e i =
      { s with
        passed := passed
        registered := registered
        heap := heap
        kept := kept
        ahead := Function.update s.ahead e (i :: s.ahead e)
        link := Function.update s.link i (some e)
        ran := Function.update s.ran i (some (s.kind i, s.due e))
        ticks := Function.update s.ticks i [] } := by
  obtain ⟨passed, registered, heap, kept, hr⟩ := registerNode_frame (s.access [.executor e]) e
  exact ⟨passed, registered, heap.retain (.action i), .action i :: kept, by rw [runAction, hr]; rfl⟩

theorem registerNode_registered (s : Scheduler ε ι κ) (e : ε) :
    (s.registerNode e).registered = Function.update s.registered e true := by
  rw [registerNode]
  split
  · rename_i h
    rw [← h, Function.update_eq_self]
  · rfl

theorem Linked.registerNode (h : Linked s) (e : ε) :
    (s.registerNode e).executors.Nodup ∧
      (∀ e', e' ∈ (s.registerNode e).executors ↔ e' = e ∨ e' ∈ s.executors) := by
  obtain ⟨passed, registered, heap, kept, hframe⟩ := registerNode_frame s e
  have hhere : (s.registerNode e).here = s.here := by rw [hframe]; rfl
  by_cases hr : s.registered e = true
  · have hmem := (h.mem_executors e).mp hr
    have hsame : s.registerNode e = s := by rw [Scheduler.registerNode, if_pos hr]
    rw [hsame]
    refine ⟨h.executors_nodup, fun e' => ⟨Or.inr, ?_⟩⟩
    rintro (rfl | he')
    · exact hmem
    · exact he'
  · have hnew : (s.registerNode e).executors = e :: s.executors := by
      rw [Scheduler.executors, hhere, Scheduler.registerNode, if_neg hr]
      rfl
    rw [hnew]
    have hfresh : e ∉ s.executors := fun hmem => hr ((h.mem_executors e).mpr hmem)
    exact ⟨List.nodup_cons.mpr ⟨hfresh, h.executors_nodup⟩, fun e' => List.mem_cons⟩

theorem runAction_actions (s : Scheduler ε ι κ) (e : ε) (i : ι) (e' : ε) :
    (s.runAction e i).actions e' = if e' = e then i :: s.actions e' else s.actions e' := by
  obtain ⟨passed, registered, heap, kept, hrun⟩ := runAction_frame s e i
  rw [hrun, actions, actions]
  by_cases he : e' = e
  · subst he
    simp
  · simp [he]

theorem runAction_link (s : Scheduler ε ι κ) (e : ε) (i : ι) :
    (s.runAction e i).link = Function.update s.link i (some e) := by
  obtain ⟨passed, registered, heap, kept, hrun⟩ := runAction_frame s e i
  rw [hrun]

theorem Linked.runAction (h : Linked s) (e : ε) (hi : s.link i = none) :
    Linked (s.runAction e i) := by
  have haccess : Linked (s.access [.executor e]) := h.same rfl rfl rfl rfl
  obtain ⟨hnodup, hmem⟩ := haccess.registerNode e
  have hexecutors : (s.runAction e i).executors =
      ((s.access [.executor e]).registerNode e).executors := rfl
  have hfree : ∀ e', i ∉ s.actions e' := by
    intro e' hin
    rw [h.mem_actions, hi] at hin
    cases hin
  constructor
  · intro e'
    rw [runAction_actions]
    split
    · exact List.nodup_cons.mpr ⟨hfree e', h.actions_nodup e'⟩
    · exact h.actions_nodup e'
  · intro j e'
    rw [runAction_actions, runAction_link]
    by_cases hj : j = i
    · subst hj
      by_cases he : e' = e
      · simp [he]
      · simp [he, hfree, Ne.symm he]
    · by_cases he : e' = e
      · simp [he, hj, h.mem_actions]
      · simp [he, hj, h.mem_actions]
  · rw [hexecutors]
    exact hnodup
  · intro e'
    have hr : (s.runAction e i).registered =
        ((s.access [.executor e]).registerNode e).registered := rfl
    rw [hexecutors, hmem, hr, registerNode_registered]
    by_cases he : e' = e
    · simp [he]
    · have hsame := h.mem_executors e'
      simp only [Function.update_of_ne he, he, false_or]
      exact hsame
  · intro e' hne
    rw [hexecutors, hmem]
    by_cases he : e' = e
    · exact Or.inl he
    · rw [runAction_actions, if_neg he] at hne
      exact Or.inr (h.busy e' hne)

omit [DecidableEq ι] in
/-- What `Update` walks is not visited once more. -/
theorem Linked.here_nodup (h : Linked s) : s.here.Nodup :=
  (List.nodup_append.mp h.executors_nodup).2.1

theorem actions_enter {left : List ε} (hwalk : s.walk = .visiting (e :: left)) :
    (s.enter e left).actions = s.actions := by
  funext e'
  by_cases he : e' = e
  · subst he
    simp [actions, enter, hwalk]
  · simp [actions, enter, hwalk, he, Ne.symm he]

theorem actions_pass {cur : ι} {rest : List ι} {left : List ε}
    (hwalk : s.walk = .running e cur rest left) :
    (s.pass e cur rest left).actions = s.actions := by
  funext e'
  by_cases he : e' = e
  · subst he
    simp [actions, pass, hwalk]
  · simp [actions, pass, hwalk, he, Ne.symm he]

/-- The action at the cursor is erased. -/
theorem Linked.actions_drop (h : Linked s) {cur : ι} {rest : List ι} {left : List ε}
    (hactions : ∀ e', s.actions e' = s.ahead e' ++ if e = e' then cur :: rest else []) (e' : ε) :
    (s.drop e cur rest left).actions e' = (s.actions e').erase cur := by
  have hnodup := h.actions_nodup e'
  have hcur : cur ∈ s.actions e := by simp [hactions]
  have hdrop : (s.drop e cur rest left).actions e' =
      s.ahead e' ++ if e = e' then rest else [] := rfl
  rw [hdrop]
  by_cases he : e = e'
  · subst he
    rw [hactions, if_pos rfl] at hnodup ⊢
    have hahead : cur ∉ s.ahead e := fun hin =>
      (List.nodup_append.mp hnodup).2.2 cur hin cur List.mem_cons_self rfl
    rw [if_pos rfl, List.erase_append_right _ hahead, List.erase_cons_head]
  · have hother : cur ∉ s.actions e' := by
      rw [h.mem_actions]
      rw [h.mem_actions] at hcur
      rw [hcur]
      exact fun heq => he (Option.some.inj heq)
    rw [List.erase_of_not_mem hother, hactions, if_neg he, if_neg he]

theorem Linked.finish (h : Linked s) {left : List ε} (hwalk : s.walk = .visiting (e :: left))
    (hahead : s.ahead e = []) : Linked (s.finish e left) := by
  have hnil : s.actions e = [] := by simpa [actions, hwalk] using hahead
  have hexecutors : s.executors = s.passed ++ e :: left := by simp [executors, here, hwalk]
  have hnodup : e ∉ s.passed ++ left ∧ (s.passed ++ left).Nodup := by
    have hmiddle := h.executors_nodup
    rw [hexecutors] at hmiddle
    exact List.nodup_cons.mp (List.nodup_middle.mp hmiddle)
  have hmem : ∀ e', e' ∈ s.executors ↔ e' = e ∨ e' ∈ s.passed ++ left := by
    intro e'
    rw [hexecutors]
    exact List.perm_middle.mem_iff.trans List.mem_cons
  have hactions : (s.finish e left).actions = s.actions := by
    funext e'
    simp [actions, hwalk, Scheduler.finish, access, onAllActionFinish]
  constructor
  · rw [hactions]
    exact h.actions_nodup
  · rw [hactions]
    exact h.mem_actions
  · exact hnodup.2
  · intro e'
    have hr : (Function.update s.registered e false) e' = true ↔ e' ∈ s.passed ++ left := by
      by_cases he : e' = e
      · subst he
        simp only [Function.update_self, Bool.false_eq_true, hnodup.1]
      · rw [Function.update_of_ne he, h.mem_executors, hmem]
        exact or_iff_right he
    exact hr
  · intro e' hne
    rw [hactions] at hne
    have he : e' ≠ e := fun he => hne (he ▸ hnil)
    exact ((hmem e').mp (h.busy e' hne)).resolve_left he

theorem Linked.next (h : Linked s) : Linked s.next := by
  apply next_cases s
  case idle => exact fun _ => h
  case endFrame =>
    intro hwalk
    refine h.same ?_ rfl ?_ rfl
    · simp [funext_iff, actions, hwalk, endFrame]
    · simp [executors, here, hwalk, endFrame]
  case finish => exact fun e left hwalk hahead => h.finish hwalk hahead
  case enter =>
    intro e left hwalk _
    refine h.same (actions_enter hwalk) rfl ?_ rfl
    simp [executors, here, hwalk, enter, access]
  case forget =>
    intro e left hwalk
    refine h.same ?_ rfl ?_ rfl
    · simp [funext_iff, actions, hwalk, forget, letGo]
    · simp [executors, here, hwalk, forget, letGo]
  case leave =>
    intro e left hwalk
    refine h.same ?_ rfl ?_ rfl
    · simp [funext_iff, actions, hwalk, leave, access]
    · simp [executors, here, hwalk, leave, access]
  case call =>
    intro e cur rest left hwalk _
    refine h.same ?_ rfl ?_ rfl
    · simp [funext_iff, actions, hwalk, call, access, onUpdate]
    · simp [executors, here, hwalk, call, access, onUpdate]
  case drop =>
    intro e cur rest left hwhere
    have hactions : ∀ e', s.actions e' = s.ahead e' ++ if e = e' then cur :: rest else [] := by
      intro e'
      rcases hwhere with ⟨hwalk, -⟩ | ⟨hwalk, -⟩ <;> simp [actions, hwalk]
    have hhere : s.here = e :: left := by
      rcases hwhere with ⟨hwalk, -⟩ | ⟨hwalk, -⟩ <;> simp [here, hwalk]
    refine h.erased (h.actions_drop hactions) rfl ?_ rfl
    rw [executors, executors, hhere]
    rfl
  case pass =>
    intro e cur rest left hwalk _ _
    refine h.same (actions_pass hwalk) rfl ?_ rfl
    simp [executors, here, hwalk, pass, access]

theorem Linked.step (h : Linked s) {a : Input ε ι κ} (ha : Unlinked s a) : Linked (s.step a) := by
  cases a with
  | newExecutor e => exact h.same rfl rfl rfl rfl
  | newAction i kind => exact h.same rfl rfl rfl rfl
  | retain o => exact h.same rfl rfl rfl rfl
  | release o => exact h.same rfl rfl rfl rfl
  | runAction e i => exact h.runAction e ha
  | stop i => exact h.same rfl rfl rfl rfl
  | stopAllAction e => exact h.same rfl rfl rfl rfl
  | beginStopAllAction e cb =>
    simp only [Scheduler.step, beginStopAllAction]
    split <;> exact h.same rfl rfl rfl rfl
  | update f =>
    simp only [Scheduler.step]
    split
    · rename_i hwalk
      refine h.same ?_ rfl ?_ rfl
      · simp [funext_iff, actions, hwalk]
      · simp [executors, here, hwalk]
    · exact h
  | next => exact h.next

/-! ### What the frames have done -/

/-- `Update` has still to reach the action in this frame. -/
def awaits (s : Scheduler ε ι κ) (i : ι) : Bool :=
  decide (i ∈ s.rest) || s.left.any fun e => decide (s.link i = some e)

/-- The frames that have reached the action, apart from those before it was run. -/
def given (s : Scheduler ε ι κ) (i : ι) : List Frame := if s.awaits i then s.frames else s.begun

/-- The action has been given up, or is to be when its callback returns. -/
def ended (s : Scheduler ε ι κ) (i : ι) : Bool :=
  if s.cur = some i then (s.kind i).isDone else (s.link i).isNone

/-- An action is what has become of it alone, in the frames up to the one it was stopped in. -/
def Met (s : Scheduler ε ι κ) (i : ι) : Prop :=
  ∀ k d, s.ran i = some (k, d) →
    (s.link i ≠ none → d ≤ (s.given i).length) ∧
      ∃ fs, fs <+: s.begun.drop d ∧ (alone k fs).kind = s.kind i ∧
        (alone k fs).ticks = s.ticks i ∧
        (s.stopped i = false → fs = (s.given i).drop d ∧ (alone k fs).ended = s.ended i)

theorem Met.same (h : Met s i) (hran : t.ran i = s.ran i) (hkind : t.kind i = s.kind i)
    (hticks : t.ticks i = s.ticks i) (hbegun : t.begun = s.begun)
    (hlink : t.link i ≠ none → s.link i ≠ none ∧ t.given i = s.given i)
    (hstopped : t.stopped i = false →
      s.stopped i = false ∧ t.given i = s.given i ∧ t.ended i = s.ended i) : Met t i := by
  intro k d hrun
  rw [hran] at hrun
  obtain ⟨hdue, fs, hprefix, hk, ht, hrest⟩ := h k d hrun
  refine ⟨?_, fs, ?_, ?_, ?_, ?_⟩
  · intro hl
    rw [(hlink hl).2]
    exact hdue (hlink hl).1
  · rw [hbegun]
    exact hprefix
  · rw [hk, hkind]
  · rw [ht, hticks]
  · intro hstop
    obtain ⟨hold, hgiven, hended⟩ := hstopped hstop
    rw [hgiven, hended]
    exact hrest hold

/-- Nothing has happened to the action. -/
theorem Met.frame (h : Met s i) (hran : t.ran i = s.ran i) (hkind : t.kind i = s.kind i)
    (hticks : t.ticks i = s.ticks i) (hbegun : t.begun = s.begun) (hlink : t.link i = s.link i)
    (hstopped : t.stopped i = false → s.stopped i = false) (hgiven : t.given i = s.given i)
    (hended : t.ended i = s.ended i) : Met t i :=
  h.same hran hkind hticks hbegun (fun hl => ⟨hlink ▸ hl, hgiven⟩)
    fun hstop => ⟨hstopped hstop, hgiven, hended⟩

theorem awaits_eq (hwalk : t.walk = s.walk) (i : ι) :
    t.awaits i = (decide (i ∈ s.rest) || s.left.any fun e => decide (t.link i = some e)) := by
  rw [awaits, rest, rest, left, left, hwalk]

omit [DecidableEq ε] in
theorem ended_eq (hwalk : t.walk = s.walk) (i : ι) :
    t.ended i = if s.cur = some i then (t.kind i).isDone else (t.link i).isNone := by
  have hcur : t.cur = s.cur := by rw [cur, cur, hwalk]
  rw [ended, hcur]

/-- `Update` has not gone on, and nothing has happened to the action. -/
theorem Met.quiet (h : Met s i) (hwalk : t.walk = s.walk) (hframe : t.frame = s.frame)
    (hframes : t.frames = s.frames) (hran : t.ran i = s.ran i) (hkind : t.kind i = s.kind i)
    (hticks : t.ticks i = s.ticks i) (hlink : t.link i = s.link i)
    (hstopped : t.stopped i = false → s.stopped i = false) : Met t i := by
  have hbegun : t.begun = s.begun := by rw [begun, begun, hwalk, hframe, hframes]
  refine h.frame hran hkind hticks hbegun hlink hstopped ?_ ?_
  · rw [given, given, awaits_eq hwalk, hlink, hbegun, hframes]
    rfl
  · rw [ended_eq hwalk, hkind, hlink]
    rfl

omit [DecidableEq ι] in
/-- What `Update` stands at is in the list of the executor, once. -/
theorem Linked.cursor (h : Linked s) {cur : ι} {rest : List ι} {left : List ε}
    (hwhere : s.walk = .walking e (cur :: rest) left ∨ s.walk = .running e cur rest left) :
    s.link cur = some e ∧ cur ∉ rest ∧ e ∉ left := by
  have hactions : s.actions e = s.ahead e ++ cur :: rest := by
    rcases hwhere with hwalk | hwalk <;> simp [actions, hwalk]
  have hhere : s.here = e :: left := by
    rcases hwhere with hwalk | hwalk <;> simp [here, hwalk]
  have hnodup := h.actions_nodup e
  have hnodup' := h.here_nodup
  rw [hactions] at hnodup
  rw [hhere] at hnodup'
  refine ⟨?_, ?_, (List.nodup_cons.mp hnodup').1⟩
  · rw [← h.mem_actions, hactions]
    simp
  · exact (List.nodup_cons.mp (List.nodup_append.mp hnodup).2.1).1

theorem frame_not_ended {a : Alone} (h : a.ended = false) (f : Frame) :
    a.frame f = ⟨(a.kind.onUpdate f.span).1,
      if (a.kind.onUpdate f.span).2 then a.ticks ++ [f.tick] else a.ticks,
      (a.kind.onUpdate f.span).1.isDone⟩ := by
  simp [Alone.frame, h]

omit [DecidableEq ε] in
theorem onUpdate_kind (s : Scheduler ε ι κ) (i : ι) :
    (s.onUpdate i).kind = Function.update s.kind i ((s.kind i).onUpdate s.frame.span).1 := rfl

omit [DecidableEq ε] in
theorem onUpdate_ticks (s : Scheduler ε ι κ) (i : ι) :
    (s.onUpdate i).ticks = Function.update s.ticks i
      (if ((s.kind i).onUpdate s.frame.span).2 then s.ticks i ++ [s.frame.tick]
        else s.ticks i) := by
  simp only [onUpdate]
  split
  · rfl
  · rw [Function.update_eq_self]

/-- The frame that is under way reaches the action. -/
theorem Met.call (h : Met s i) (hs : Linked s) {cur : ι} {rest : List ι} {left : List ε}
    (hwalk : s.walk = .walking e (cur :: rest) left) (hstop : s.stopped cur = false) :
    Met (s.call e cur rest left) i := by
  obtain ⟨hlink, hrest, hleft⟩ := hs.cursor (Or.inl hwalk)
  have hbegun : s.begun = s.frames ++ [s.frame] := by simp [begun, hwalk]
  have hkind : (s.call e cur rest left).kind = (s.onUpdate cur).kind := rfl
  have hticks : (s.call e cur rest left).ticks = (s.onUpdate cur).ticks := rfl
  by_cases hi : i = cur
  · subst hi
    intro k d hrun
    obtain ⟨hdue, fs, -, hk, ht, hmet⟩ := h k d hrun
    obtain ⟨hfs, hended⟩ := hmet hstop
    have hbefore : s.given i = s.frames := by simp [given, awaits, Scheduler.rest, hwalk]
    have hafter : (s.call e i rest left).given i = s.frames ++ [s.frame] := by
      have hnot : (s.call e i rest left).awaits i = false := by
        simp only [awaits, Scheduler.rest, Scheduler.left, Scheduler.call, hrest, access, onUpdate,
          hlink, decide_false, Bool.false_or, List.any_eq_false, Option.some.injEq,
          decide_eq_true_eq]
        exact fun e' he' heq => hleft (heq ▸ he')
      rw [given, hnot]
      rfl
    have hd : d ≤ s.frames.length := by
      rw [hbefore] at hdue
      exact hdue (by simp [hlink])
    have hdrop : (s.frames ++ [s.frame]).drop d = fs ++ [s.frame] := by
      rw [List.drop_append_of_le_length hd, hfs, hbefore]
    have hrunning : (alone k fs).ended = false := by
      rw [hended]
      simp [Scheduler.ended, cur, hwalk, hlink]
    have hframe : alone k (fs ++ [s.frame]) = ⟨(s.onUpdate i).kind i, (s.onUpdate i).ticks i,
        ((s.onUpdate i).kind i).isDone⟩ := by
      rw [alone_concat, frame_not_ended hrunning, hk, ht, onUpdate_kind, onUpdate_ticks,
        Function.update_self, Function.update_self]
    refine ⟨?_, fs ++ [s.frame], ?_, ?_, ?_, ?_⟩
    · intro _
      rw [hafter, List.length_append]
      exact Nat.le_add_right_of_le hd
    · have hsame : (s.call e i rest left).begun = s.frames ++ [s.frame] := rfl
      rw [hsame, hdrop]
    · rw [hframe, hkind]
    · rw [hframe, hticks]
    · intro _
      have hcur : (s.call e i rest left).cur = some i := rfl
      refine ⟨by rw [hafter, hdrop], ?_⟩
      rw [hframe, Scheduler.ended, if_pos hcur, hkind]
  · have hawaits : (s.call e cur rest left).awaits i = s.awaits i := by
      simp [awaits, Scheduler.rest, Scheduler.left, Scheduler.call, hwalk, hi, access, onUpdate]
    refine h.frame rfl ?_ ?_ ?_ rfl id ?_ ?_
    · rw [hkind, onUpdate_kind, Function.update_of_ne hi]
    · rw [hticks, onUpdate_ticks, Function.update_of_ne hi]
    · rw [hbegun]
      rfl
    · rw [given, given, hawaits, hbegun]
      rfl
    · have hne : cur ≠ i := Ne.symm hi
      simp [Scheduler.ended, Scheduler.cur, Scheduler.call, hwalk, hne, access, onUpdate]

/-- An action is given up because it has been stopped, or because it is done. -/
theorem Met.drop (h : Met s i) (hs : Linked s) {cur : ι} {rest : List ι} {left : List ε}
    (hwhere : s.walk = .walking e (cur :: rest) left ∧ s.stopped cur = true ∨
      s.walk = .running e cur rest left ∧ (s.stopped cur = true ∨ (s.kind cur).isDone = true)) :
    Met (s.drop e cur rest left) i := by
  obtain ⟨hlink, hrest, hleft⟩ := hs.cursor (hwhere.imp And.left And.left)
  have hbegun : (s.drop e cur rest left).begun = s.begun := by
    rcases hwhere with ⟨hwalk, -⟩ | ⟨hwalk, -⟩ <;> rw [begun, begun, hwalk] <;> rfl
  have hlefts : s.left = left := by
    rcases hwhere with ⟨hwalk, -⟩ | ⟨hwalk, -⟩ <;> rw [Scheduler.left, hwalk]
  have hnow : (s.drop e cur rest left).link = Function.update s.link cur none := rfl
  by_cases hi : i = cur
  · subst hi
    have hgone : (s.drop e i rest left).link i = none := by rw [hnow, Function.update_self]
    refine h.same rfl rfl rfl hbegun (fun hl => absurd hgone hl) ?_
    intro hstop
    have hold : s.stopped i = false := hstop
    rcases hwhere with ⟨-, hyes⟩ | ⟨hwalk, hyes | hdone⟩
    · simp [hold] at hyes
    · simp [hold] at hyes
    · refine ⟨hold, ?_, ?_⟩
      · have hbefore : s.awaits i = false := by
          simp only [awaits, Scheduler.rest, hlefts, hwalk, hrest, hlink, decide_false,
            Bool.false_or, List.any_eq_false, Option.some.injEq, decide_eq_true_eq]
          exact fun e' he' heq => hleft (heq ▸ he')
        have hafter : (s.drop e i rest left).awaits i = false := by
          simp [awaits, Scheduler.rest, Scheduler.left, Scheduler.drop, hrest, erase]
        rw [given, given, hbefore, hafter, hbegun]
        rfl
      · simp [Scheduler.ended, cur, Scheduler.drop, hwalk, hdone, erase]
  · have hawaits : (s.drop e cur rest left).awaits i = s.awaits i := by
      have hr : i ∈ s.rest ↔ i ∈ rest := by
        rcases hwhere with ⟨hwalk, -⟩ | ⟨hwalk, -⟩ <;> simp [Scheduler.rest, hwalk, hi]
      simp [awaits, hr, hlefts, hnow, hi]
      rfl
    have hsame : (s.drop e cur rest left).link i = s.link i := by
      rw [hnow, Function.update_of_ne hi]
    refine h.frame rfl rfl rfl hbegun hsame id ?_ ?_
    · rw [given, given, hawaits, hbegun]
      rfl
    · have hc : s.cur ≠ some i := by
        have hne : cur ≠ i := Ne.symm hi
        rcases hwhere with ⟨hwalk, -⟩ | ⟨hwalk, -⟩ <;> simp [Scheduler.cur, hwalk, hne]
      have hc' : (s.drop e cur rest left).cur ≠ some i := by simp [Scheduler.cur, Scheduler.drop]
      rw [Scheduler.ended, Scheduler.ended, if_neg hc, if_neg hc', hsame]

theorem Met.pass (h : Met s i) (hs : Linked s) {cur : ι} {rest : List ι} {left : List ε}
    (hwalk : s.walk = .running e cur rest left) (hdone : (s.kind cur).isDone = false) :
    Met (s.pass e cur rest left) i := by
  obtain ⟨hlink, -, -⟩ := hs.cursor (Or.inr hwalk)
  have hbegun : (s.pass e cur rest left).begun = s.begun := by
    rw [begun, begun, hwalk]
    rfl
  have hgiven : (s.pass e cur rest left).given i = s.given i := by
    have hawaits : (s.pass e cur rest left).awaits i = s.awaits i := by
      simp [awaits, Scheduler.rest, Scheduler.left, Scheduler.pass, hwalk, access]
    rw [given, given, hawaits, hbegun]
    rfl
  refine h.frame rfl rfl rfl hbegun rfl id hgiven ?_
  by_cases hi : cur = i
  · subst hi
    simp [Scheduler.ended, Scheduler.cur, Scheduler.pass, hwalk, access, hdone, hlink]
  · simp [Scheduler.ended, Scheduler.cur, Scheduler.pass, hwalk, access, hi]

theorem Met.next (h : Met s i) (hs : Linked s) : Met s.next i := by
  apply next_cases (P := fun t => Met t i) s
  case idle => exact fun _ => h
  case endFrame =>
    intro hwalk
    refine h.frame rfl rfl rfl ?_ rfl id ?_ ?_
    · simp [begun, endFrame, hwalk]
    · simp [given, awaits, Scheduler.rest, Scheduler.left, begun, endFrame, hwalk]
    · simp [Scheduler.ended, Scheduler.cur, endFrame, hwalk]
  case finish =>
    intro e left hwalk hahead
    have hnil : s.actions e = [] := by simpa [actions, hwalk] using hahead
    have hnone : s.link i ≠ some e := by
      rw [ne_eq, ← hs.mem_actions, hnil]
      exact List.not_mem_nil
    refine h.frame rfl rfl rfl ?_ rfl id ?_ ?_
    · simp [begun, Scheduler.finish, hwalk, access, onAllActionFinish]
    · simp [given, awaits, Scheduler.rest, Scheduler.left, begun, Scheduler.finish, hwalk, access,
        onAllActionFinish, hnone]
    · simp [Scheduler.ended, Scheduler.cur, Scheduler.finish, hwalk, access, onAllActionFinish]
  case enter =>
    intro e left hwalk _
    have hactions : i ∈ s.ahead e ↔ s.link i = some e := by
      rw [← hs.mem_actions]
      simp [actions, hwalk]
    refine h.frame rfl rfl rfl ?_ rfl id ?_ ?_
    · simp [begun, Scheduler.enter, hwalk, access]
    · simp [given, awaits, Scheduler.rest, Scheduler.left, begun, Scheduler.enter, hwalk, access,
        hactions]
    · simp [Scheduler.ended, Scheduler.cur, Scheduler.enter, hwalk, access]
  case forget =>
    intro e left hwalk
    refine h.frame rfl rfl rfl ?_ rfl id ?_ ?_
    · simp [begun, Scheduler.forget, hwalk, letGo]
    · simp [given, awaits, Scheduler.rest, Scheduler.left, begun, Scheduler.forget, hwalk, letGo]
    · simp [Scheduler.ended, Scheduler.cur, Scheduler.forget, hwalk, letGo]
  case leave =>
    intro e left hwalk
    refine h.frame rfl rfl rfl ?_ rfl id ?_ ?_
    · simp [begun, Scheduler.leave, hwalk, access]
    · simp [given, awaits, Scheduler.rest, Scheduler.left, begun, Scheduler.leave, hwalk, access]
    · simp [Scheduler.ended, Scheduler.cur, Scheduler.leave, hwalk, access]
  case call => exact fun e cur rest left hwalk hstop => h.call hs hwalk hstop
  case drop => exact fun e cur rest left hwhere => h.drop hs hwhere
  case pass => exact fun e cur rest left hwalk _ hdone => h.pass hs hwalk hdone

omit [DecidableEq ι] in
/-- What `Update` has before it is in a list. -/
theorem exists_actions (s : Scheduler ε ι κ) (i : ι) (h : s.cur = some i ∨ i ∈ s.rest) :
    ∃ e, i ∈ s.actions e := by
  rcases hwalk : s.walk with _ | _ | _ | ⟨e, rest, left⟩ | ⟨e, cur, rest, left⟩
  case walking =>
    simp only [Scheduler.cur, Scheduler.rest, hwalk, reduceCtorEq, false_or] at h
    exact ⟨e, by simp [actions, hwalk, h]⟩
  case running =>
    simp only [Scheduler.cur, Scheduler.rest, hwalk, Option.some.injEq] at h
    refine ⟨e, ?_⟩
    rcases h with rfl | h
    · simp [actions, hwalk]
    · simp [actions, hwalk, h]
  all_goals simp [Scheduler.cur, Scheduler.rest, hwalk] at h

omit [DecidableEq ι] in
theorem Linked.before (h : Linked s) (hi : s.link i = none) : s.cur ≠ some i ∧ i ∉ s.rest := by
  rw [← not_or]
  intro hin
  obtain ⟨e, he⟩ := exists_actions s i hin
  rw [h.mem_actions, hi] at he
  cases he

/-- An action begins with the next frame that reaches its executor. -/
theorem Met.runAction (h : Met s i) (hs : Linked s) (e : ε) {j : ι} (hj : s.link j = none) :
    Met (s.runAction e j) i := by
  obtain ⟨passed, registered, heap, kept, hrun⟩ := runAction_frame s e j
  obtain ⟨hcur, hrest⟩ := hs.before hj
  have hwalk : (s.runAction e j).walk = s.walk := by rw [hrun]
  by_cases hi : i = j
  · subst hi
    have hgiven : (s.runAction e i).given i = if e ∈ s.left then s.frames else s.begun := by
      have hawaits : (s.runAction e i).awaits i = true ↔ e ∈ s.left := by
        rw [awaits_eq hwalk, runAction_link, Function.update_self]
        simp [hrest]
      have hsame : (s.runAction e i).frames = s.frames ∧ (s.runAction e i).begun = s.begun := by
        rw [hrun]
        exact ⟨rfl, rfl⟩
      rw [given, hsame.1, hsame.2]
      simp only [hawaits]
    have hlength : ((s.runAction e i).given i).length = s.due e := by
      rw [hgiven, due]
      split <;> rfl
    intro k d hran
    have hstart : s.kind i = k ∧ s.due e = d := by
      rw [hrun] at hran
      simpa using hran
    obtain ⟨rfl, rfl⟩ := hstart
    refine ⟨fun _ => hlength.ge, [], List.nil_prefix, ?_, ?_, ?_⟩
    · rw [hrun]
      rfl
    · rw [hrun]
      simp
    · intro _
      refine ⟨by rw [← hlength, List.drop_length], ?_⟩
      rw [ended_eq hwalk, if_neg hcur, runAction_link, Function.update_self]
      rfl
  · have hlink : (s.runAction e j).link i = s.link i := by
      rw [runAction_link, Function.update_of_ne hi]
    rw [hrun] at hlink ⊢
    refine h.quiet rfl rfl rfl ?_ rfl ?_ hlink id
    · exact Function.update_of_ne hi _ _
    · exact Function.update_of_ne hi _ _

/-- When a frame begins, it has still to reach what is in a list. -/
theorem Met.update (h : Met s i) (hs : Linked s) (hwalk : s.walk = .idle) (f : Frame) :
    Met (s.step (.update f)) i := by
  have hstep : s.step (.update f) =
      { s with passed := [], walk := .visiting s.passed, frame := f } := by
    simp only [Scheduler.step, hwalk]
  have hold : s.begun = s.frames ∧ s.given i = s.frames := by
    simp [given, awaits, Scheduler.rest, Scheduler.left, begun, hwalk]
  have hnew : (s.step (.update f)).begun = s.frames ++ [f] := by
    rw [hstep]
    rfl
  have hgrown : s.begun <+: (s.step (.update f)).begun := by
    rw [hold.1, hnew]
    exact List.prefix_append _ _
  have hended : (s.step (.update f)).ended i = s.ended i := by
    rw [hstep]
    simp [Scheduler.ended, Scheduler.cur, hwalk]
  intro k d hran
  have hsame : s.ran i = some (k, d) := by
    rw [hstep] at hran
    exact hran
  obtain ⟨hdue, fs, hprefix, hk, ht, hmet⟩ := h k d hsame
  have hk' : (s.step (.update f)).kind i = s.kind i := by rw [hstep]
  have ht' : (s.step (.update f)).ticks i = s.ticks i := by rw [hstep]
  rcases hlink : s.link i with _ | e
  · -- it has been given up
    have hnone : (s.step (.update f)).link i = none := by
      rw [hstep]
      exact hlink
    refine ⟨fun hl => absurd hnone hl, ?_⟩
    by_cases hstop : s.stopped i = true
    · refine ⟨fs, hprefix.trans (hgrown.drop d), by rw [hk, hk'], by rw [ht, ht'], ?_⟩
      intro hno
      rw [hstep] at hno
      simp only [hstop, Bool.true_eq_false] at hno
    · obtain ⟨hfs, hdone⟩ := hmet (Bool.eq_false_iff.mpr hstop)
      have hyes : (alone k fs).ended = true := by
        rw [hdone]
        simp [Scheduler.ended, Scheduler.cur, hwalk, hlink]
      have hawaits : (s.step (.update f)).awaits i = false := by
        rw [hstep]
        simp [awaits, Scheduler.rest, Scheduler.left, hlink]
      have hgiven : (s.step (.update f)).given i = s.frames ++ [f] := by
        rw [given, hawaits, hnew]
        rfl
      have hlonger : alone k ((s.frames ++ [f]).drop d) = alone k fs := by
        apply alone_of_prefix _ hyes
        rw [hfs, hold.2]
        exact (List.prefix_append _ _).drop d
      refine ⟨(s.frames ++ [f]).drop d, by rw [hnew], ?_, ?_, fun _ => ⟨by rw [hgiven], ?_⟩⟩
      · rw [hlonger, hk, hk']
      · rw [hlonger, ht, ht']
      · rw [hlonger, hdone, hended]
  · have hgiven : (s.step (.update f)).given i = s.given i := by
      have hin : e ∈ s.passed := by
        have hmem : e ∈ s.executors := by
          apply hs.busy
          exact List.ne_nil_of_mem ((hs.mem_actions i e).mpr hlink)
        simpa [executors, here, hwalk] using hmem
      have hawaits : (s.step (.update f)).awaits i = true := by
        rw [hstep]
        simp [awaits, Scheduler.left, hlink, hin]
      rw [given, hawaits, hold.2, hstep]
      rfl
    refine ⟨?_, fs, hprefix.trans (hgrown.drop d), by rw [hk, hk'], by rw [ht, ht'], ?_⟩
    · intro _
      rw [hgiven]
      exact hdue (by simp [hlink])
    · intro hno
      rw [hgiven, hended]
      apply hmet
      rw [hstep] at hno
      exact hno

/-- Stopping an action has no other effect. -/
theorem Met.stopped (h : Met s i) {p : ι → Bool} (hp : ∀ j, s.stopped j = true → p j = true)
    (heap : Heap (Object ε ι)) (cbStop : ε → Option κ) (called : List (ε × κ)) :
    Met { s with stopped := p, heap := heap, cbStop := cbStop, called := called } i := by
  refine h.quiet rfl rfl rfl rfl rfl rfl rfl ?_
  intro hno
  by_contra hyes
  rw [Bool.not_eq_false] at hyes
  exact Bool.false_ne_true (hno.symm.trans (hp i hyes))

theorem Met.step (h : Met s i) (hs : Linked s) {a : Input ε ι κ} (ha : Unlinked s a) :
    Met (s.step a) i := by
  cases a with
  | newExecutor e => exact h.quiet rfl rfl rfl rfl rfl rfl rfl id
  | newAction j kind =>
    by_cases hi : i = j
    · subst hi
      intro k d hran
      simp [Scheduler.step] at hran
    · refine h.quiet rfl rfl rfl ?_ ?_ ?_ rfl ?_
      · exact Function.update_of_ne hi _ _
      · exact Function.update_of_ne hi _ _
      · exact Function.update_of_ne hi _ _
      · simp [Scheduler.step, hi]
  | retain o => exact h.quiet rfl rfl rfl rfl rfl rfl rfl id
  | release o => exact h.quiet rfl rfl rfl rfl rfl rfl rfl id
  | runAction e j => exact h.runAction hs e ha
  | stop j =>
    apply h.stopped
    intro j' hj'
    by_cases heq : j' = j
    · simp [heq]
    · simp [heq, hj']
  | stopAllAction e =>
    apply h.stopped
    intro j hj
    rw [hj]
    rfl
  | beginStopAllAction e cb =>
    simp only [Scheduler.step, beginStopAllAction]
    split
    · exact h.stopped (fun _ hj => hj) _ _ _
    · apply h.stopped
      intro j hj
      simp [Scheduler.stopAllAction, hj]
  | update f =>
    by_cases hwalk : s.walk = .idle
    · exact h.update hs hwalk f
    · have hstep : s.step (.update f) = s := by
        simp only [Scheduler.step]
      rw [hstep]
      exact h
  | next => exact h.next hs

/-! ### Whole runs -/

theorem run_met {as : List (Input ε ι κ)} (has : Along step Unlinked start as) (i : ι) :
    Met (run step start as) i := by
  have hboth : Linked (run step (start : Scheduler ε ι κ) as) ∧ Met (run step start as) i := by
    apply run_invariant (I := fun s : Scheduler ε ι κ => Linked s ∧ Met s i) _ _ has
    · exact fun s a h ha => ⟨h.1.step ha, h.2.step h.1 ha⟩
    · exact ⟨linked_start, fun k d hran => by cases hran⟩
  exact hboth.2

/-- **An action does what it does alone.**  In every run, whatever code does between the frames
    and in the callbacks, an action has been updated as if there were no other, in the frames
    since it was run or up to the one in which it was stopped; and between two frames it is in
    its list as long as it is not over. -/
theorem run_alone (as : List (Input ε ι κ)) (has : Along step Unlinked start as) {i : ι} {k : Kind}
    {d : Nat} (hran : (run step start as).ran i = some (k, d)) :
    let s := run step start as
    (∃ fs, fs <+: s.begun.drop d ∧ (alone k fs).kind = s.kind i ∧ (alone k fs).ticks = s.ticks i) ∧
      (s.walk = .idle → s.stopped i = false →
        alone k (s.frames.drop d) = ⟨s.kind i, s.ticks i, (s.link i).isNone⟩) := by
  intro s
  obtain ⟨-, fs, hprefix, hkind, hticks, hmet⟩ := run_met has i k d hran
  refine ⟨⟨fs, hprefix, hkind, hticks⟩, fun hwalk hstop => ?_⟩
  obtain ⟨hfs, hended⟩ := hmet hstop
  have hgiven : s.given i = s.frames := by
    simp [given, awaits, Scheduler.rest, Scheduler.left, begun, hwalk]
  have hlast : s.ended i = (s.link i).isNone := by simp [Scheduler.ended, Scheduler.cur, hwalk]
  rw [← hgiven, ← hfs]
  rcases h : alone k fs with ⟨kind, ticks, ended⟩
  rw [h] at hkind hticks hended
  rw [← hkind, ← hticks, ← hlast, ← hended]

/-- **A timeout is called once**, in the first frame in which its delay has passed since it was
    run, and it is in its list until then. -/
theorem run_timeout (as : List (Input ε ι κ)) (has : Along step Unlinked start as) {i : ι}
    {delay : Int32} {d : Nat}
    (hran : (run step start as).ran i = some (.timeout delay 0, d))
    (hidle : (run step start as).walk = .idle) (hstop : (run step start as).stopped i = false)
    (hfits : Fits delay ((run step start as).frames.drop d)) :
    let s := run step start as
    (s.link i ≠ none ∧ s.ticks i = [] ∧
        (s.frames.drop d = [] ∨ elapsed (s.frames.drop d) < delay.toInt)) ∨
      ∃ before f after, s.frames.drop d = before ++ f :: after ∧ s.link i = none ∧
        s.ticks i = [f.tick] ∧ (before = [] ∨ elapsed before < delay.toInt) ∧
        delay.toInt ≤ elapsed (before ++ [f]) := by
  have halone := (run_alone as has hran).2 hidle hstop
  have htimeout := alone_timeout hfits
  rw [halone] at htimeout
  simp only [Option.isNone_iff_eq_none, Option.isNone_eq_false_iff,
    Option.isSome_iff_ne_none] at htimeout
  exact htimeout

/-- **An interval is called each time it has passed** since it was run or called, up to the call
    in which its function returns true or fails, and it is in its list until then. -/
theorem run_luaInterval (as : List (Input ε ι κ)) (has : Along step Unlinked start as) {i : ι}
    {interval : Int32} {outcome : Nat → Option Bool} {d : Nat}
    (hran : (run step start as).ran i = some (.luaInterval interval 0 false 0 outcome, d))
    (hidle : (run step start as).walk = .idle) (hstop : (run step start as).stopped i = false)
    (hfits : Fits interval ((run step start as).frames.drop d)) :
    let s := run step start as
    ∃ beats : List Beat, ∃ rest, s.frames.drop d = beats.flatMap Beat.frames ++ rest ∧
      (∀ b ∈ beats, b.Right interval) ∧ s.ticks i = beats.map (fun b => b.2.tick) ∧
      (∀ n, n + 1 < beats.length → outcome n ≠ some true) ∧
      if s.link i = none then ∃ n, beats.length = n + 1 ∧ outcome n = some true
      else (rest = [] ∨ elapsed rest < interval.toInt) ∧
        ∀ n, n < beats.length → outcome n ≠ some true := by
  have halone := (run_alone as has hran).2 hidle hstop
  have hinterval := alone_luaInterval outcome hfits
  rw [halone] at hinterval
  simp only [Option.isNone_iff_eq_none] at hinterval
  exact hinterval

/-- A frame whose `Update` takes `n` steps. -/
def oneFrame (f : Frame) (n : Nat) : List (Input Nat Nat Nat) :=
  .update f :: List.replicate n .next

def twice (n : Nat) : Option Bool := some (n == 1)

/-- A timeout and an interval; while the interval is called, another timeout is run. -/
def timers : List (Input Nat Nat Nat) :=
  [.newExecutor 0, .newAction 0 (.timeout 20 0), .runAction 0 0,
    .newAction 1 (.luaInterval 10 0 false 0 twice), .runAction 0 1, .update ⟨100, 10⟩, .next,
    .next, .newAction 2 (.timeout 5 0), .runAction 0 2] ++
    List.replicate 5 .next ++ oneFrame ⟨110, 10⟩ 9

example : (run step start timers).ticks 0 = [110] ∧ (run step start timers).ticks 1 = [100, 110] ∧
    (run step start timers).ticks 2 = [110] := by decide

theorem run_alone_timers :
    let s := run step start timers
    (∃ fs, fs <+: s.begun.drop 0 ∧ (alone (.timeout 20 0) fs).kind = s.kind 0 ∧
        (alone (.timeout 20 0) fs).ticks = s.ticks 0) ∧
      (s.walk = .idle → s.stopped 0 = false →
        alone (.timeout 20 0) (s.frames.drop 0) = ⟨s.kind 0, s.ticks 0, (s.link 0).isNone⟩) :=
  run_alone timers (by decide) rfl

theorem run_timeout_timers :
    let s := run step start timers
    (s.link 0 ≠ none ∧ s.ticks 0 = [] ∧
        (s.frames.drop 0 = [] ∨ elapsed (s.frames.drop 0) < 20)) ∨
      ∃ before f after, s.frames.drop 0 = before ++ f :: after ∧ s.link 0 = none ∧
        s.ticks 0 = [f.tick] ∧ (before = [] ∨ elapsed before < 20) ∧
        20 ≤ elapsed (before ++ [f]) :=
  run_timeout (i := 0) (d := 0) timers (by decide) rfl rfl (by decide) (by decide)

theorem run_luaInterval_timers :
    let s := run step start timers
    ∃ beats : List Beat, ∃ rest, s.frames.drop 0 = beats.flatMap Beat.frames ++ rest ∧
      (∀ b ∈ beats, b.Right 10) ∧ s.ticks 1 = beats.map (fun b => b.2.tick) ∧
      (∀ n, n + 1 < beats.length → twice n ≠ some true) ∧
      if s.link 1 = none then ∃ n, beats.length = n + 1 ∧ twice n = some true
      else (rest = [] ∨ elapsed rest < (10 : Int32).toInt) ∧
        ∀ n, n < beats.length → twice n ≠ some true :=
  run_luaInterval (i := 1) (d := 0) timers (by decide) rfl rfl (by decide) (by decide)

end Jengine.Action.Scheduler
