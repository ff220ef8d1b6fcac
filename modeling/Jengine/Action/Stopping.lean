import Jengine.Action.Schedule

/-!
# The end of an executor

`Executor::BeginStopAllAction` stops all actions and has its callback called when they are gone.
As long as nobody runs another action there, the callback is called once, at the latest in the
second frame that begins after it.
-/

namespace Jengine.Action.Scheduler

open Jengine.Lib

variable {ε ι κ : Type} [DecidableEq ε] [DecidableEq ι]

/-- Something else than running an action on the executor, or stopping them all once more. -/
def Elsewhere (e : ε) : Input ε ι κ → Prop
  | .runAction e' _ => e' ≠ e
  | .beginStopAllAction e' _ => e' ≠ e
  | _ => True

instance (e : ε) : (a : Input ε ι κ) → Decidable (Elsewhere e a)
  | .runAction _ _ | .beginStopAllAction _ _ => instDecidableNot
  | .newExecutor _ | .newAction _ _ | .retain _ | .release _ | .stop _ | .stopAllAction _
  | .update _ | .next => instDecidableTrue

/-- The executor is left alone. -/
def LeftAlone (e : ε) (s : Scheduler ε ι κ) (a : Input ε ι κ) : Prop := Unlinked s a ∧ Elsewhere e a

instance (e : ε) (s : Scheduler ε ι κ) (a : Input ε ι κ) : Decidable (LeftAlone e s a) :=
  instDecidableAnd

/-- The callbacks of `BeginStopAllAction` of an executor. -/
def callsOf (s : Scheduler ε ι κ) (e : ε) : List (ε × κ) := s.called.filter fun c => c.1 = e

/-- The executor has still to be visited, or nothing will be left in its list. -/
def Clearing (e : ε) (s : Scheduler ε ι κ) : Prop :=
  e ∈ s.left ∨ s.actions e = [] ∨ ∃ rest left, s.walk = .walking e rest left ∧ s.ahead e = []

/-- What the frames have done that began after the first `n`. -/
def Progress (n : Nat) (e : ε) (s : Scheduler ε ι κ) : Prop :=
  s.begun.length ≤ n ∨ (s.begun.length = n + 1 ∧ Clearing e s) ∨
    (s.begun.length = n + 2 ∧ e ∈ s.left ∧ s.actions e = [])

/-- The callback is still to come. -/
structure Waiting (n : Nat) (e : ε) (cb : κ) (calls : List (ε × κ)) (s : Scheduler ε ι κ) :
    Prop where
  registered : s.registered e = true
  cbStop : s.cbStop e = some cb
  stopped : ∀ i ∈ s.actions e, s.stopped i = true
  calls : s.callsOf e = calls
  progress : Progress n e s

/-- The callback has been called. -/
structure Done (e : ε) (cb : κ) (calls : List (ε × κ)) (s : Scheduler ε ι κ) : Prop where
  registered : s.registered e = false
  calls : s.callsOf e = calls ++ [(e, cb)]

variable {s t : Scheduler ε ι κ} {e : ε} {i : ι} {n : Nat} {cb : κ} {calls : List (ε × κ)}

omit [DecidableEq ι] in
theorem Done.actions (h : Done e cb calls s) (hs : Linked s) : s.actions e = [] ∧ e ∉ s.here := by
  have hout : e ∉ s.executors := by
    rw [← hs.mem_executors, h.registered]
    exact Bool.false_ne_true
  refine ⟨?_, fun he => hout (List.mem_append_right _ he)⟩
  by_contra hne
  exact hout (hs.busy e hne)

omit [DecidableEq ι] in
/-- `Update` goes on, and nothing is run on the executor. -/
theorem Waiting.goesOn (h : Waiting n e cb calls s) (hregistered : t.registered e = s.registered e)
    (hcbStop : t.cbStop e = s.cbStop e) (hcalls : t.callsOf e = s.callsOf e)
    (hstopped : ∀ i ∈ s.actions e, s.stopped i = true → t.stopped i = true)
    (hactions : t.actions e ⊆ s.actions e) (hbegun : t.begun.length = s.begun.length)
    (hclearing : Clearing e s → Clearing e t)
    (hleft : e ∈ s.left → s.actions e = [] → e ∈ t.left) : Waiting n e cb calls t := by
  refine ⟨hregistered.trans h.registered, hcbStop.trans h.cbStop, ?_, hcalls.trans h.calls, ?_⟩
  · exact fun i hi => hstopped i (hactions hi) (h.stopped i (hactions hi))
  · have hnil : s.actions e = [] → t.actions e = [] := fun hnil =>
      List.subset_nil.mp (hnil ▸ hactions)
    rw [Progress, hbegun]
    rcases h.progress with hp | ⟨hp, hc⟩ | ⟨hp, hl, hn⟩
    · exact Or.inl hp
    · exact Or.inr (Or.inl ⟨hp, hclearing hc⟩)
    · exact Or.inr (Or.inr ⟨hp, hleft hl hn, hnil hn⟩)

omit [DecidableEq ι] in
/-- Nothing has happened to the executor. -/
theorem Waiting.same (h : Waiting n e cb calls s) (hregistered : t.registered e = s.registered e)
    (hcbStop : t.cbStop e = s.cbStop e) (hcalls : t.callsOf e = s.callsOf e)
    (hstopped : ∀ i ∈ s.actions e, s.stopped i = true → t.stopped i = true)
    (hactions : t.actions e = s.actions e) (hwalk : t.walk = s.walk)
    (hbegun : t.begun.length = s.begun.length) (hahead : t.ahead e = s.ahead e) :
    Waiting n e cb calls t := by
  have hleft : t.left = s.left := by rw [left, left, hwalk]
  apply h.goesOn hregistered hcbStop hcalls hstopped (hactions ▸ List.Subset.refl _) hbegun
  · rw [Clearing, Clearing, hleft, hactions, hwalk, hahead]
    exact id
  · rw [hleft]
    exact fun hl _ => hl

omit [DecidableEq ι] in
/-- `Update` goes on, and the list of the executor is as it was. -/
theorem Waiting.moved (h : Waiting n e cb calls s) (hregistered : t.registered e = s.registered e)
    (hcbStop : t.cbStop = s.cbStop) (hcalls : t.callsOf e = s.callsOf e)
    (hstopped : t.stopped = s.stopped) (hactions : t.actions e = s.actions e)
    (hbegun : t.begun = s.begun) (hleft : e ∈ s.left → e ∈ t.left)
    (hwalking : ∀ rest left, s.walk = .walking e rest left → s.ahead e = [] → s.actions e = []) :
    Waiting n e cb calls t := by
  apply h.goesOn hregistered (congrFun hcbStop e) hcalls (fun i _ => hstopped ▸ id)
    (hactions ▸ List.Subset.refl _) (congrArg _ hbegun)
  · rintro (hl | hnil | ⟨rest, left, hwalk, hahead⟩)
    · exact Or.inl (hleft hl)
    · exact Or.inr (Or.inl (hactions.trans hnil))
    · exact Or.inr (Or.inl (hactions.trans (hwalking rest left hwalk hahead)))
  · exact fun hl _ => hleft hl

omit [DecidableEq ι] in
theorem Done.same (h : Done e cb calls s) (hregistered : t.registered e = s.registered e)
    (hcalls : t.callsOf e = s.callsOf e) : Done e cb calls t :=
  ⟨hregistered.trans h.registered, hcalls.trans h.calls⟩

/-- Another executor has been erased. -/
theorem callsOf_finish {e' : ε} {left : List ε} (he : e' ≠ e) :
    (s.finish e' left).callsOf e = s.callsOf e := by
  rcases hcb : s.cbStop e' with _ | cb
  · simp [callsOf, finish, onAllActionFinish, access, hcb]
  · simp [callsOf, finish, onAllActionFinish, access, hcb, he]

/-- The callback is called when the actions are gone. -/
theorem Waiting.finish (h : Waiting n e cb calls s) {left : List ε} :
    Done e cb calls (s.finish e left) := by
  refine ⟨Function.update_self .., ?_⟩
  rw [← h.calls]
  simp [callsOf, Scheduler.finish, onAllActionFinish, access, h.cbStop]

theorem Waiting.next (h : Waiting n e cb calls s) (hs : Linked s) :
    Waiting n e cb calls s.next ∨ Done e cb calls s.next := by
  apply next_cases (P := fun t => Waiting n e cb calls t ∨ Done e cb calls t) s
  case idle => exact fun _ => Or.inl h
  case endFrame =>
    intro hwalk
    refine Or.inl (h.moved rfl rfl rfl rfl ?_ ?_ ?_ ?_)
    · simp [actions, endFrame, hwalk]
    · simp [begun, endFrame, hwalk]
    · simp [left, hwalk]
    · simp [hwalk]
  case finish =>
    intro e' left hwalk _
    by_cases he : e' = e
    · subst he
      exact Or.inr h.finish
    · have hne : e ≠ e' := Ne.symm he
      have hregistered : (s.finish e' left).registered e = s.registered e :=
        Function.update_of_ne hne _ _
      refine Or.inl (h.moved hregistered rfl (callsOf_finish he) rfl ?_ ?_ ?_ ?_)
      · simp [actions, hwalk, Scheduler.finish, access, onAllActionFinish]
      · simp [begun, Scheduler.finish, hwalk, access, onAllActionFinish]
      · simp [Scheduler.left, Scheduler.finish, hwalk, hne]
      · simp [hwalk]
  case enter =>
    intro e' left hwalk hahead
    have hactions : (s.enter e' left).actions e = s.actions e := congrFun (actions_enter hwalk) e
    have hsame : (s.enter e' left).actions e ⊆ s.actions e := hactions ▸ List.Subset.refl _
    have hbegun : (s.enter e' left).begun.length = s.begun.length := by
      simp [begun, Scheduler.enter, hwalk, access]
    refine Or.inl (h.goesOn rfl rfl rfl (fun _ _ => id) hsame hbegun ?_ ?_)
    · intro hclearing
      by_cases he : e' = e
      · -- nothing that is ahead of the walk stays
        subst he
        exact Or.inr (Or.inr ⟨s.ahead e', left, rfl, Function.update_self ..⟩)
      · rcases hclearing with hl | hnil | ⟨rest, left, hin, -⟩
        · left
          simpa [Scheduler.left, Scheduler.enter, hwalk, Ne.symm he] using hl
        · exact Or.inr (Or.inl (hactions.trans hnil))
        · simp [hwalk] at hin
    · intro hl hnil
      have he : e' ≠ e := by
        rintro rfl
        apply hahead
        simpa [actions, hwalk] using hnil
      simpa [Scheduler.left, Scheduler.enter, hwalk, Ne.symm he] using hl
  case forget =>
    intro e' left hwalk
    refine Or.inl (h.moved rfl rfl rfl rfl ?_ ?_ ?_ ?_)
    · simp [actions, hwalk, Scheduler.forget, letGo]
    · simp [begun, Scheduler.forget, hwalk, letGo]
    · simp [Scheduler.left, Scheduler.forget, hwalk]
    · simp [hwalk]
  case leave =>
    intro e' left hwalk
    refine Or.inl (h.moved rfl rfl rfl rfl ?_ ?_ ?_ ?_)
    · simp [actions, hwalk, Scheduler.leave, access]
    · simp [begun, Scheduler.leave, hwalk, access]
    · simp [Scheduler.left, Scheduler.leave, hwalk]
    · intro _ _ _ hahead
      simp [actions, hwalk, hahead]
  case call =>
    intro e' cur rest left hwalk hstop
    have he : e' ≠ e := by
      rintro rfl
      have hcur : cur ∈ s.actions e' := by simp [actions, hwalk]
      rw [h.stopped cur hcur] at hstop
      cases hstop
    refine Or.inl (h.moved rfl rfl rfl rfl ?_ ?_ ?_ ?_)
    · simp [actions, hwalk, Scheduler.call, access, onUpdate]
    · simp [begun, Scheduler.call, hwalk, access, onUpdate]
    · simp [Scheduler.left, Scheduler.call, hwalk]
    · simp [hwalk, he]
  case drop =>
    intro e' cur rest left hwhere
    have hsplit : ∀ e, s.actions e = s.ahead e ++ if e' = e then cur :: rest else [] := by
      intro e
      rcases hwhere with ⟨hwalk, -⟩ | ⟨hwalk, -⟩ <;> simp [actions, hwalk]
    have hactions : (s.drop e' cur rest left).actions e ⊆ s.actions e := by
      rw [hs.actions_drop hsplit]
      exact List.erase_subset
    have hleft : e ∈ s.left → e ∈ (s.drop e' cur rest left).left := by
      rcases hwhere with ⟨hwalk, -⟩ | ⟨hwalk, -⟩ <;>
        simp [Scheduler.left, Scheduler.drop, hwalk]
    refine Or.inl (h.goesOn rfl rfl rfl (fun _ _ => id) hactions ?_ ?_ fun hl _ => hleft hl)
    · rcases hwhere with ⟨hwalk, -⟩ | ⟨hwalk, -⟩ <;>
        simp [begun, Scheduler.drop, hwalk, access, erase, letGo]
    · rintro (hl | hnil | ⟨rest', left', hin, hahead⟩)
      · exact Or.inl (hleft hl)
      · exact Or.inr (Or.inl (List.subset_nil.mp (hnil ▸ hactions)))
      · right
        right
        have he : e' = e := by
          rcases hwhere with ⟨hwalk, -⟩ | ⟨hwalk, -⟩
          · simp only [hwalk, Walk.walking.injEq] at hin
            exact hin.1
          · simp [hwalk] at hin
        exact ⟨rest, left, by rw [← he]; rfl, hahead⟩
  case pass =>
    intro e' cur rest left hwalk _ _
    refine Or.inl (h.moved rfl rfl rfl rfl (congrFun (actions_pass hwalk) e) ?_ ?_ ?_)
    · simp [begun, Scheduler.pass, hwalk, access]
    · simp [Scheduler.left, Scheduler.pass, hwalk]
    · simp [hwalk]

theorem Done.next (h : Done e cb calls s) (hs : Linked s) : Done e cb calls s.next := by
  apply next_cases (P := fun t => Done e cb calls t) s
  case idle => exact fun _ => h
  case finish =>
    intro e' left hwalk _
    have he : e' ≠ e := by
      rintro rfl
      apply (h.actions hs).2
      simp [here, hwalk]
    exact h.same (Function.update_of_ne (Ne.symm he) _ _) (callsOf_finish he)
  all_goals intros; exact h.same rfl rfl

theorem runAction_registered_ne {e' : ε} (he : e' ≠ e) :
    (s.runAction e' i).registered e = s.registered e := by
  have hflags : (s.runAction e' i).registered =
      ((s.access [.executor e']).registerNode e').registered := rfl
  rw [hflags, registerNode_registered, Function.update_of_ne (Ne.symm he)]
  rfl

theorem Done.step (h : Done e cb calls s) (hs : Linked s) {a : Input ε ι κ}
    (ha : LeftAlone e s a) : Done e cb calls (s.step a) := by
  cases a with
  | runAction e' i =>
    apply h.same (runAction_registered_ne ha.2)
    obtain ⟨passed, registered, heap, kept, hrun⟩ := runAction_frame s e' i
    rw [hrun]
    rfl
  | beginStopAllAction e' cb' =>
    have he : e' ≠ e := ha.2
    simp only [Scheduler.step, beginStopAllAction]
    split
    · exact h.same rfl (by simp [callsOf, he])
    · exact h.same rfl rfl
  | update f =>
    simp only [Scheduler.step]
    split
    · exact h.same rfl rfl
    · exact h
  | next => exact h.next hs
  | _ => exact h.same rfl rfl

/-- A frame begins. -/
theorem Waiting.update (h : Waiting n e cb calls s) (hs : Linked s) (hwalk : s.walk = .idle)
    (f : Frame) : Waiting n e cb calls (s.step (.update f)) := by
  have hstep : s.step (.update f) =
      { s with passed := [], walk := .visiting s.passed, frame := f } := by
    simp only [Scheduler.step, hwalk]
  have hvisited : e ∈ s.passed := by
    have hmem := (hs.mem_executors e).mp h.registered
    simpa [executors, here, hwalk] using hmem
  have hactions : (s.step (.update f)).actions e = s.actions e := by
    simp [hstep, actions, hwalk]
  have hbegun : (s.step (.update f)).begun.length = s.begun.length + 1 := by
    simp [hstep, begun, hwalk]
  have hleft : e ∈ (s.step (.update f)).left := by simpa [hstep, left] using hvisited
  have hnone : e ∉ s.left := by simp [left, hwalk]
  constructor
  · rw [hstep]
    exact h.registered
  · rw [hstep]
    exact h.cbStop
  · rw [hactions, hstep]
    exact h.stopped
  · rw [hstep]
    exact h.calls
  · rw [Progress, hbegun, hactions]
    rcases h.progress with hp | ⟨hp, hl | hnil | ⟨rest, left, hin, -⟩⟩ | ⟨-, hl, -⟩
    · rcases Nat.lt_or_eq_of_le hp with hp | hp
      · exact Or.inl hp
      · exact Or.inr (Or.inl ⟨by rw [hp], Or.inl hleft⟩)
    · exact absurd hl hnone
    · exact Or.inr (Or.inr ⟨by rw [hp], hleft, hnil⟩)
    · simp [hwalk] at hin
    · exact absurd hl hnone

theorem Waiting.step (h : Waiting n e cb calls s) (hs : Linked s) {a : Input ε ι κ}
    (ha : LeftAlone e s a) :
    Waiting n e cb calls (s.step a) ∨ Done e cb calls (s.step a) := by
  cases a with
  | newAction i kind =>
    refine Or.inl (h.same rfl rfl rfl ?_ rfl rfl rfl rfl)
    intro j hj hstop
    have hlink := (hs.mem_actions j e).mp hj
    have hne : j ≠ i := by
      rintro rfl
      have hnone : s.link j = none := ha.1
      rw [hnone] at hlink
      cases hlink
    exact (Function.update_of_ne hne _ _).trans hstop
  | runAction e' i =>
    have he : e' ≠ e := ha.2
    have hactions : (s.runAction e' i).actions e = s.actions e := by
      rw [runAction_actions, if_neg (Ne.symm he)]
    have hregistered := runAction_registered_ne (s := s) (i := i) he
    obtain ⟨passed, registered, heap, kept, hrun⟩ := runAction_frame s e' i
    rw [hrun] at hactions hregistered
    rw [Scheduler.step, hrun]
    refine Or.inl (h.same hregistered rfl rfl (fun _ _ => id) hactions rfl rfl ?_)
    exact Function.update_of_ne (Ne.symm he) _ _
  | stop i =>
    refine Or.inl (h.same rfl rfl rfl ?_ rfl rfl rfl rfl)
    intro j _ hstop
    by_cases hj : j = i
    · rw [hj]
      exact Function.update_self ..
    · exact (Function.update_of_ne hj _ _).trans hstop
  | stopAllAction e' =>
    refine Or.inl (h.same rfl rfl rfl ?_ rfl rfl rfl rfl)
    intro j _ hstop
    simp [Scheduler.step, stopAllAction, hstop]
  | beginStopAllAction e' cb' =>
    have he : e' ≠ e := ha.2
    simp only [Scheduler.step, beginStopAllAction]
    split
    · refine Or.inl (h.same rfl rfl ?_ (fun _ _ => id) rfl rfl rfl rfl)
      simp [callsOf, he]
    · refine Or.inl (h.same rfl (Function.update_of_ne (Ne.symm he) _ _) rfl ?_ rfl rfl rfl rfl)
      intro j _ hstop
      simp [stopAllAction, hstop]
  | update f =>
    left
    by_cases hwalk : s.walk = .idle
    · exact h.update hs hwalk f
    · have hstep : s.step (.update f) = s := by simp only [Scheduler.step]
      rw [hstep]
      exact h
  | next => exact h.next hs
  | _ => exact Or.inl (h.same rfl rfl rfl (fun _ _ => id) rfl rfl rfl rfl)

/-- `BeginStopAllAction` while there are actions. -/
theorem waiting_beginStopAllAction (hs : Linked s) (hne : s.actions e ≠ []) (cb : κ) :
    Waiting s.begun.length e cb (s.callsOf e) (s.step (.beginStopAllAction e cb)) := by
  have hstep : s.step (.beginStopAllAction e cb) =
      { s.stopAllAction e with cbStop := Function.update s.cbStop e (some cb) } := by
    rw [Scheduler.step, beginStopAllAction, if_neg hne]
  rw [hstep]
  refine ⟨(hs.mem_executors e).mpr (hs.busy e hne), Function.update_self .., ?_, rfl, ?_⟩
  · intro i hi
    have hmem : i ∈ s.actions e := hi
    simp [stopAllAction, hmem]
  · exact Or.inl (Nat.le_refl _)

/-- **The callback of `BeginStopAllAction` is called, once.**  From any state of any run, as long
    as nobody runs another action on the executor, it is called at most once, only when all
    actions are gone, and at the latest in the second frame that begins after it. -/
theorem run_stopped (as : List (Input ε ι κ)) (has : Along step Unlinked start as) {e : ε}
    (hne : (run step start as).actions e ≠ []) (cb : κ) (bs : List (Input ε ι κ))
    (hbs : Along step (LeftAlone e) ((run step start as).step (.beginStopAllAction e cb)) bs) :
    let s := run step start as
    let t := run step (s.step (.beginStopAllAction e cb)) bs
    (t.callsOf e = s.callsOf e ∨ t.callsOf e = s.callsOf e ++ [(e, cb)] ∧ t.actions e = []) ∧
      (t.walk = .idle → s.begun.length + 2 ≤ t.frames.length →
        t.callsOf e = s.callsOf e ++ [(e, cb)] ∧ t.actions e = []) := by
  intro s t
  have hlinked : Linked s := by
    apply run_invariant (I := fun s : Scheduler ε ι κ => Linked s) _ linked_start has
    exact fun s a h ha => h.step ha
  have hend : Linked t ∧
      (Waiting s.begun.length e cb (s.callsOf e) t ∨ Done e cb (s.callsOf e) t) := by
    apply run_invariant (I := fun t : Scheduler ε ι κ => Linked t ∧
      (Waiting s.begun.length e cb (s.callsOf e) t ∨ Done e cb (s.callsOf e) t)) _ _ hbs
    · rintro t a ⟨hl, hw | hd⟩ ha
      · exact ⟨hl.step ha.1, hw.step hl ha⟩
      · exact ⟨hl.step ha.1, Or.inr (hd.step hl ha)⟩
    · exact ⟨hlinked.step trivial, Or.inl (waiting_beginStopAllAction hlinked hne cb)⟩
  obtain ⟨hl, hw | hd⟩ := hend
  · refine ⟨Or.inl hw.calls, fun hidle hframes => ?_⟩
    have hbegun : t.begun = t.frames := by simp [begun, hidle]
    have hnone : e ∉ t.left := by simp [left, hidle]
    rcases hw.progress with hp | ⟨hp, -⟩ | ⟨-, hleft, -⟩
    · rw [hbegun] at hp
      omega
    · rw [hbegun] at hp
      omega
    · exact absurd hleft hnone
  · have hgone := (hd.actions hl).1
    exact ⟨Or.inr ⟨hd.calls, hgone⟩, fun _ _ => ⟨hd.calls, hgone⟩⟩

/-- A timeout and an interval, and while the interval is called a third action. -/
def stopping : List (Input Nat Nat Nat) := timers.take 10

/-- Two frames, and an action of another executor. -/
def afterwards : List (Input Nat Nat Nat) :=
  List.replicate 5 .next ++ [.newExecutor 1, .newAction 3 (.nextCall false), .runAction 1 3] ++
    oneFrame ⟨110, 10⟩ 9 ++ oneFrame ⟨120, 10⟩ 9

theorem run_stopped_timers :
    let s := run step start stopping
    let t := run step (s.step (.beginStopAllAction 0 7)) afterwards
    (t.callsOf 0 = s.callsOf 0 ∨ t.callsOf 0 = s.callsOf 0 ++ [(0, 7)] ∧ t.actions 0 = []) ∧
      (t.walk = .idle → s.begun.length + 2 ≤ t.frames.length →
        t.callsOf 0 = s.callsOf 0 ++ [(0, 7)] ∧ t.actions 0 = []) :=
  run_stopped stopping (by decide) (by decide) 7 afterwards (by decide)

example : let t := run step (run step start (stopping ++ [.beginStopAllAction 0 7])) afterwards
    t.walk = .idle ∧ t.callsOf 0 = [(0, 7)] ∧ t.frames.length = 3 :=
  ⟨rfl, rfl, rfl⟩

end Jengine.Action.Scheduler
