import Jengine.Runner.References

/-!
# Commands run in order, once, and are deleted once

Every step of `Update`, and everything that a callback or other code may do between two of
them, keeps the two invariants.  From them the contract of `RunnerMgr` is read off.
-/

namespace Jengine.Runner.RunnerMgr

open Jengine.Lib

variable {s : RunnerMgr}

theorem ne_flip (top : Nat) : ∀ c : Nat, ¬ c = top → ¬ top = c := fun _ hc heq => hc heq.symm

structure Inv (s : RunnerMgr) : Prop where
  holds : ∃ xs, Holds s xs none
  tells : Tells s

theorem start_inv : Inv start where
  holds := by
    refine ⟨[], IntrusiveList.represents_empty, fun r => rfl, ?_, fun r _ => rfl, ?_, ?_⟩
    · exact fun r hr => by cases hr
    · exact fun r _ => List.not_mem_nil
    · exact fun q hq => by cases hq
  tells := by
    constructor
    case fresh => exact fun c _ => ⟨rfl, rfl⟩
    case waiting => exact fun r c hc => absurd hc List.not_mem_nil
    case tail => exact fun r c hc => absurd hc List.not_mem_nil
    case top => exact fun q c hc => by cases hc
    case ran => exact fun q c hc => by cases hc
    case finish => exact fun c hc => by cases hc
    case pushed => exact fun r c => ⟨fun hc => absurd hc List.not_mem_nil, fun hc => by cases hc⟩
    case nodup => exact fun r => List.nodup_nil
    case through => exact fun r => ⟨[], rfl, fun d hd => absurd hd List.not_mem_nil,
      fun _ d hd => absurd hd List.not_mem_nil⟩
    case unborn => exact fun r _ => rfl
    case lawful => exact lawful_nil

namespace Inv

/-! ### `Update` -/

theorem cursor (h : Inv s) {q : Nat} (hq : s.phase.cursor = some q) :
    ∃ xs, Holds s xs none ∧ q ∈ xs := by
  obtain ⟨xs, hxs⟩ := h.holds
  exact ⟨xs, hxs, hxs.cursor q hq⟩

/-- A queue that has lost its runner or its commands is taken out. -/
theorem drop (h : Inv s) {q : Nat} (hphase : s.phase = .loop (some q))
    (hempty : s.life q = .alive → (s.queues q).cmds = []) : Inv (s.drop q) := by
  obtain ⟨xs, hxs, hq⟩ := h.cursor (by rw [hphase]; rfl)
  have htells : Tells { s with list := (s.list.erase q).1, phase := .loop (s.list.erase q).2 } := by
    refine h.tells.congr rfl (fun _ => rfl) (fun _ => .inl) (fun _ => id) (fun _ _ hc => by cases hc)
      (fun _ _ hc => by cases hc) ?_ rfl
    rw [hphase]
    rfl
  exact ⟨⟨_, (hxs.erase hq hempty).release⟩, htells.release fun _ _ hc => by cases hc⟩

theorem returned (h : Inv s) {q : Nat} (hphase : s.phase = .loop (some q)) :
    Inv (s.returned q) := by
  rw [RunnerMgr.returned]
  split
  · rename_i hnil
    exact h.drop hphase fun _ => hnil
  · obtain ⟨xs, hxs, hq⟩ := h.cursor (by rw [hphase]; rfl)
    refine ⟨⟨xs, hxs.move rfl rfl rfl fun x hx => hxs.list.next_mem hq hx⟩, ?_⟩
    refine h.tells.congr rfl (fun _ => rfl) (fun _ => .inl) (fun _ => id) (fun _ _ hc => by cases hc)
      (fun _ _ hc => by cases hc) ?_ rfl
    rw [hphase]
    rfl

section Front

variable {q top : Nat} (h : Inv s) (htop : (s.queues q).cmds.head? = some top)

include h htop

/-- What the trace tells of the front of a queue. -/
theorem mem_trace {e : Event} (he : e.concerns top = true) :
    e ∈ s.trace ↔ e ∈ s.phase.story (s.commands top).executed top := by
  rw [← (h.tells.waiting q top (List.mem_of_mem_head? htop)).2, mem_story he]

theorem not_deleted : .delete top ∉ s.trace :=
  h.tells.not_deleted (List.mem_of_mem_head? htop)

/-- A member of the front is looked at. -/
theorem use : Inv (s.emit [.use top]) := by
  obtain ⟨xs, hxs⟩ := h.holds
  refine ⟨⟨xs, hxs.move rfl rfl rfl hxs.cursor⟩, ?_⟩
  refine h.tells.extend [.use top] (fun _ => ⟨rfl, rfl⟩) ?_ (fun _ => rfl) (fun _ => .inl)
    (fun _ => id) (fun _ _ => id) (fun _ _ => id) rfl rfl (by simp [Event.concerns])
    (fun _ => rfl) (lawful_snoc.mpr ⟨h.tells.lawful, h.not_deleted htop⟩)
  exact fun c hc => List.mem_append_left _ (h.tells.finish c hc)

/-- `OnCleanup` is called on a command that has been executed and stopped. -/
theorem cleanup (hphase : s.phase = .loop (some q)) (hexecuted : (s.commands top).executed = true)
    (hfinish : (s.commands top).finish = true) :
    Inv { s.emit [.cleanup top] with phase := .inCleanup q top } := by
  obtain ⟨xs, hxs, hq⟩ := h.cursor (by rw [hphase]; rfl)
  refine ⟨⟨xs, hxs.move rfl rfl rfl fun x hx => by cases hx; exact hq⟩, ?_⟩
  have hmem : ∀ {e : Event}, e.concerns top = true →
      (e ∈ s.trace ↔ e ∈ [.setup top, .ready top, .execute top]) := by
    intro e he
    rw [h.mem_trace htop he, hphase, hexecuted]
    rfl
  refine h.tells.proceed htop (by simpa [Event.concerns] using ne_flip top) (fun _ => rfl) ?_ ?_ ?_ ?_ ?_
  · intro c hc ex
    rw [hphase]
    simp [Phase.story, Ne.symm hc]
  · rw [story_append, (h.tells.waiting q top (List.mem_of_mem_head? htop)).2, hphase, hexecuted]
    simp [Phase.story, story, Event.concerns]
  · exact fun q' c hc => by cases hc; exact ⟨rfl, rfl⟩
  · exact fun q' c hc => by cases hc
  · refine lawful_snoc.mpr ⟨h.tells.lawful, ?_, h.not_deleted htop, ?_, h.tells.finish top hfinish⟩
    · rw [hmem (by simp [Event.concerns])]
      simp
    · rw [hmem (by simp [Event.concerns])]
      simp

theorem checkFinish (hphase : s.phase = .loop (some q))
    (hexecuted : (s.commands top).executed = true) : Inv (s.checkFinish q top) := by
  have huse := h.use htop
  rw [RunnerMgr.checkFinish]
  split
  · rename_i hfinish
    exact huse.cleanup htop hphase hexecuted hfinish
  · exact huse.returned hphase

/-- `OnSetup` is called on a command that all before it in its queue are through. -/
theorem setup (hphase : s.phase = .loop (some q)) (hfresh : (s.commands top).executed = false) :
    Inv { s.emit [.setup top] with phase := .inSetup q top } := by
  obtain ⟨xs, hxs, hq⟩ := h.cursor (by rw [hphase]; rfl)
  refine ⟨⟨xs, hxs.move rfl rfl rfl fun x hx => by cases hx; exact hq⟩, ?_⟩
  refine h.tells.proceed htop (by simpa [Event.concerns] using ne_flip top) (fun _ => rfl) ?_ ?_ ?_ ?_ ?_
  · intro c hc ex
    rw [hphase]
    simp [Phase.story, Ne.symm hc]
  · rw [story_append, (h.tells.waiting q top (List.mem_of_mem_head? htop)).2, hphase, hfresh]
    simp [Phase.story, story, Event.concerns]
  · exact fun q' c hc => by cases hc; exact ⟨rfl, rfl⟩
  · exact fun q' c hc => by cases hc
  · obtain ⟨done, hdone, -, hfinished⟩ := h.tells.through q
    refine lawful_snoc.mpr ⟨h.tells.lawful, ?_, h.not_deleted htop, q, done,
      (s.queues q).cmds.tail, ?_, hfinished (hxs.refs_ne_zero (.inr hq))⟩
    · rw [h.mem_trace htop (by simp [Event.concerns]), hphase, hfresh]
      simp [Phase.story]
    · rw [hdone, List.cons_head?_tail htop]

/-- `OnSetup` has returned true, and `OnCommandExecute` is called. -/
theorem execute (hphase : s.phase = .inSetup q top) :
    Inv { (s.setCommand top { s.commands top with executed := true }).emit
      [.ready top, .execute top] with phase := .inExecute q top } := by
  obtain ⟨xs, hxs, hq⟩ := h.cursor (by rw [hphase]; rfl)
  refine ⟨⟨xs, hxs.move rfl rfl rfl fun x hx => by cases hx; exact hq⟩, ?_⟩
  have hmem : ∀ {e : Event}, e.concerns top = true → (e ∈ s.trace ↔ e ∈ [.setup top]) := by
    intro e he
    rw [h.mem_trace htop he, hphase]
    simp [Phase.story]
  refine h.tells.advance htop (by simpa [Event.concerns] using ne_flip top) (fun _ => rfl) ?_ ?_ ?_ ?_ ?_
  · intro c hc ex
    rw [hphase]
    simp [Phase.story, Ne.symm hc]
  · rw [story_append, (h.tells.waiting q top (List.mem_of_mem_head? htop)).2, hphase]
    simp [Phase.story, story, Event.concerns]
  · exact fun q' c hc => by cases hc; exact ⟨rfl, rfl⟩
  · exact fun q' c hc => by cases hc; exact ⟨rfl, rfl⟩
  · have hready : Lawful (s.trace ++ [.ready top]) := by
      refine lawful_snoc.mpr ⟨h.tells.lawful, ?_, ?_, ?_⟩ <;>
        · rw [hmem (by simp [Event.concerns])]
          simp
    have hexecute : .execute top ∉ s.trace := by
      rw [hmem (by simp [Event.concerns])]
      simp
    rw [List.append_cons]
    refine lawful_snoc.mpr ⟨hready, ?_, ?_, by simp⟩
    · simpa using hexecute
    · simpa using h.not_deleted htop

/-- `OnSetup` has returned false. -/
theorem fail (hphase : s.phase = .inSetup q top) :
    Inv (((s.emit [.failed top]).pop q top).returned q) := by
  obtain ⟨xs, hxs, hq⟩ := h.cursor (by rw [hphase]; rfl)
  have hemit : Holds (s.emit [.failed top]) xs none := hxs.move rfl rfl rfl hxs.cursor
  have hpop : Inv ((s.emit [.failed top]).pop q top) := by
    refine ⟨⟨xs, hemit.pop hq top⟩, ?_⟩
    refine h.tells.pop htop _ (by simpa [Event.concerns] using ne_flip top) (fun _ => rfl) ?_ ?_ ?_ (by simp)
    · intro c hc ex
      rw [hphase]
      simp [Phase.story, Ne.symm hc]
    · refine lawful_snoc.mpr ⟨h.tells.lawful, ?_, ?_, ?_⟩ <;>
        · rw [h.mem_trace htop (by simp [Event.concerns]), hphase]
          simp [Phase.story]
    · simpa using h.not_deleted htop
  exact hpop.returned rfl

/-- `OnCleanup` has returned. -/
theorem finish (hphase : s.phase = .inCleanup q top) : Inv ((s.pop q top).returned q) := by
  obtain ⟨xs, hxs, hq⟩ := h.cursor (by rw [hphase]; rfl)
  have hpop : Inv (s.pop q top) := by
    refine ⟨⟨xs, hxs.pop hq top⟩, ?_⟩
    have hnil : s.emit [] = s := by simp [emit]
    have htells := h.tells.pop htop [] (by simp) (fun _ => rfl) (by
      intro c hc ex
      rw [hphase]
      simp [Phase.story, Ne.symm hc]) (by rw [List.append_nil]; exact h.tells.lawful)
      (by rw [List.append_nil]; exact h.not_deleted htop) (by
      right
      rw [List.append_nil, h.mem_trace htop (by simp [Event.concerns]), hphase]
      simp [Phase.story])
    rwa [hnil] at htells
  exact hpop.returned rfl

end Front

theorem tryExecute (h : Inv s) {q : Nat} (hphase : s.phase = .loop (some q)) :
    Inv (s.tryExecute q) := by
  rw [RunnerMgr.tryExecute]
  cases hcmds : (s.queues q).cmds with
  | nil => exact h.returned hphase
  | cons top rest =>
      have htop : (s.queues q).cmds.head? = some top := by
        rw [hcmds]
        rfl
      have huse := h.use htop
      dsimp only
      cases hexecuted : (s.commands top).executed with
      | false =>
        rw [if_pos (by simp [emit, hexecuted])]
        exact huse.setup htop hphase hexecuted
      | true =>
        rw [if_neg (by simp [emit, hexecuted])]
        exact huse.checkFinish htop hphase hexecuted

theorem next (h : Inv s) (ok : Bool) : Inv (s.next ok) := by
  cases hphase : s.phase with
  | idle =>
      rw [RunnerMgr.next, hphase]
      exact h
  | loop q =>
      cases q with
      | none =>
        simp only [RunnerMgr.next, hphase]
        obtain ⟨xs, hxs⟩ := h.holds
        refine ⟨⟨xs, hxs.move rfl rfl rfl fun q hq => by cases hq⟩, ?_⟩
        refine h.tells.congr rfl (fun _ => rfl) (fun _ => .inl) (fun _ => id)
          (fun _ _ hc => by cases hc) (fun _ _ hc => by cases hc) ?_ rfl
        rw [hphase]
        rfl
      | some q =>
        simp only [RunnerMgr.next, hphase]
        split
        · exact h.tryExecute hphase
        · rename_i hrefs
          refine h.drop hphase fun halive => absurd ?_ hrefs
          -- the list and the runner hold the queue
          obtain ⟨xs, hxs, hq⟩ := h.cursor (by rw [hphase]; rfl)
          rw [hxs.refs, if_pos halive, if_pos hq]
          rfl
  | inSetup q top =>
      have htop := h.tells.top q top (by rw [hphase]; rfl)
      simp only [RunnerMgr.next, hphase]
      split
      · exact h.execute htop hphase
      · exact h.fail htop hphase
  | inExecute q top =>
      have htop := h.tells.top q top (by rw [hphase]; rfl)
      have hexecuted := h.tells.ran q top hphase
      simp only [RunnerMgr.next, hphase]
      have hback : Inv { s with phase := .loop (some q) } := by
        obtain ⟨xs, hxs, hq⟩ := h.cursor (by rw [hphase]; rfl)
        refine ⟨⟨xs, hxs.move rfl rfl rfl fun x hx => by cases hx; exact hq⟩, ?_⟩
        refine h.tells.congr rfl (fun _ => rfl) (fun _ => .inl) (fun _ => id)
          (fun _ _ hc => by cases hc) (fun _ _ hc => by cases hc) ?_ rfl
        rw [hphase]
        rfl
      exact hback.checkFinish htop rfl hexecuted
  | inCleanup q top =>
      have htop := h.tells.top q top (by rw [hphase]; rfl)
      simp only [RunnerMgr.next, hphase]
      exact h.finish htop hphase

/-! ### What other code does -/

theorem pushCommand (h : Inv s) {r c : Nat} (halive : s.life r = .alive)
    (hnone : (s.commands c).runner = none) : Inv (s.pushCommand r c) := by
  obtain ⟨xs, hxs⟩ := h.holds
  -- it makes no difference that the queue is registered after the push
  have heq : s.pushCommand r c = (s.register r).push r c := by
    simp only [RunnerMgr.pushCommand, register, push, emit, setCommand, setQueue,
      Function.update_self, Function.update_idem]
    split <;> simp
  obtain ⟨ys, hys, hr⟩ := hxs.register halive
  have htells : Tells (s.register r) := by
    rw [register]
    split
    · exact h.tells
    · refine h.tells.congr rfl ?_ ?_ (fun _ => id) (fun _ _ => id) (fun _ _ => id) rfl rfl
      · intro r'
        by_cases hr' : r' = r
        · subst hr'
          simp [setQueue]
        · simp [setQueue, hr']
      · intro r' hr'
        by_cases heq : r' = r
        · subst heq
          exact .inl (hxs.refs_ne_zero (.inl halive))
        · left
          simpa [setQueue, heq] using hr'
  have hsame : (s.register r).commands = s.commands ∧ (s.register r).life = s.life := by
    rw [register]
    split <;> exact ⟨rfl, rfl⟩
  rw [heq]
  refine ⟨⟨ys, hys.push hr c⟩, htells.push ?_ (hys.refs_ne_zero (.inr hr)) ?_⟩
  · rw [hsame.1]
    exact hnone
  · rw [hsame.2, halive]
    exact Life.noConfusion

theorem newRunner (h : Inv s) {r : Nat} (hr : s.life r = .unborn) : Inv (s.newRunner r) := by
  obtain ⟨xs, hxs⟩ := h.holds
  refine ⟨⟨xs, hxs.newRunner hr⟩, ?_⟩
  have hnil := h.tells.unborn r hr
  obtain ⟨done, hdone, -⟩ := h.tells.through r
  have hcmds : (s.queues r).cmds = [] := (List.append_eq_nil_iff.mp (hdone.symm.trans hnil)).2
  refine h.tells.congr rfl ?_ ?_ ?_ (fun _ _ => id) (fun _ _ => id) rfl rfl
  · intro r'
    by_cases heq : r' = r
    · subst heq
      simp [RunnerMgr.newRunner, setQueue, hcmds]
    · simp [RunnerMgr.newRunner, setQueue, heq]
  · intro r' hr'
    by_cases heq : r' = r
    · subst heq
      exact .inr hnil
    · left
      simpa [RunnerMgr.newRunner, setQueue, heq] using hr'
  · intro r' hr'
    by_cases heq : r' = r
    · subst heq
      exact hr
    · simpa [RunnerMgr.newRunner, heq] using hr'

/-- A runner is destroyed; its queue stays as long as it is in the list. -/
theorem destroyRunner (h : Inv s) {r : Nat} (hr : s.life r = .alive) : Inv (s.destroyRunner r) := by
  obtain ⟨xs, hxs⟩ := h.holds
  have hbury := hxs.bury hr
  have htells : Tells { s with life := Function.update s.life r .dead } := by
    refine h.tells.congr rfl (fun _ => rfl) (fun _ => .inl) ?_ (fun _ _ => id) (fun _ _ => id) rfl
      rfl
    intro r' hr'
    by_cases heq : r' = r
    · subst heq
      simp at hr'
    · simpa [heq] using hr'
  refine ⟨⟨xs, hbury.release⟩, htells.release ?_⟩
  -- the queue of a command that runs is in the list
  rintro hzero c hc
  have hq : r ∈ xs := by
    apply hxs.cursor
    revert hc
    cases s.phase <;> simp +contextual [Phase.top, Phase.cursor]
  have hrefs := hxs.refs r
  rw [if_pos hr, if_pos hq] at hrefs
  simp only [hrefs] at hzero
  simp [heldRefs] at hzero

theorem step (h : Inv s) (a : Action) : Inv (s.step a) := by
  cases a with
  | newRunner r =>
      simp only [RunnerMgr.step]
      split
      · rename_i hr
        exact h.newRunner hr
      · exact h
  | destroyRunner r =>
      simp only [RunnerMgr.step]
      split
      · rename_i hr
        exact h.destroyRunner hr
      · exact h
  | pushCommand r c =>
      simp only [RunnerMgr.step]
      split
      · rename_i hand
        exact h.pushCommand hand.1 hand.2
      · exact h
  | stop c =>
      simp only [RunnerMgr.step]
      split
      · exact h
      · obtain ⟨xs, hxs⟩ := h.holds
        exact ⟨⟨xs, hxs.move rfl rfl rfl hxs.cursor⟩, h.tells.stop c⟩
  | update =>
      cases hphase : s.phase with
      | idle =>
        simp only [RunnerMgr.step, hphase]
        obtain ⟨xs, hxs⟩ := h.holds
        refine ⟨⟨xs, hxs.move rfl rfl rfl fun q hq => hxs.list.front_mem hq⟩, ?_⟩
        refine h.tells.congr rfl (fun _ => rfl) (fun _ => .inl) (fun _ => id)
          (fun _ _ hc => by cases hc) (fun _ _ hc => by cases hc) ?_ rfl
        rw [hphase]
        rfl
      | loop | inSetup | inExecute | inCleanup =>
        simp only [RunnerMgr.step, hphase]
        exact h
  | next ok => exact h.next ok

end Inv

/-- **Every run is lawful.**  In the trace of a run each command is set up at most once, in
    the order of pushing and after those before it are through, executed at most once and
    after a successful setup, cleaned up at most once and after it was executed and stopped,
    deleted at most once and not used afterwards; when a queue has lost its last reference,
    all its commands have been deleted; and between two calls of `Update` a queue that holds
    commands and whose runner is alive is in the list once, with two references. -/
theorem run_lawful (as : List Action) :
    Lawful (run step start as).trace ∧
      (∀ r, ((run step start as).queues r).referenceCount = 0 →
        ∀ c ∈ pushes r (run step start as).trace, .delete c ∈ (run step start as).trace) ∧
      ((run step start as).phase = .idle → ∃ xs, (run step start as).list.Represents xs ∧
        ∀ r, (run step start as).life r = .alive → ((run step start as).queues r).cmds ≠ [] →
          xs.count r = 1 ∧ ((run step start as).queues r).referenceCount = 2) := by
  obtain ⟨⟨xs, hxs⟩, htells⟩ := run_keeps (I := Inv) (fun _ a h => h.step a) start_inv as
  refine ⟨htells.lawful, ?_, ?_⟩
  · intro r hzero c hc
    obtain ⟨done, hdone, hdeleted, -⟩ := htells.through r
    rw [hdone, hxs.gone r hzero, List.append_nil] at hc
    exact hdeleted c hc
  · intro _
    refine ⟨xs, hxs.list, fun r halive hne => ?_⟩
    have hmem := hxs.linked r halive hne
    refine ⟨List.count_eq_one_of_mem hxs.list.nodup hmem, ?_⟩
    rw [hxs.refs, if_pos halive, if_pos hmem]
    rfl

/-- The last command of a queue pushes another one while it is cleaned up: the queue is not
    dropped. -/
example : (run step start [.newRunner 0, .pushCommand 0 7, .stop 7, .update, .next true, .next true,
      .next true, .pushCommand 0 8, .next true]).trace =
    [.pushed 0 7, .stop 7, .use 7, .setup 7, .ready 7, .execute 7, .use 7, .cleanup 7, .pushed 0 8,
      .delete 7] := by decide

end Jengine.Runner.RunnerMgr
