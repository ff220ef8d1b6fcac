import Jengine.Net.ClientIO

/-!
# `ModifyIOEvent` on a closed client

`ModifyIOEvent` asserts that the dispatcher has the client and that `epoll_ctl` knows
its descriptor.  `InvokeSend` calls it after a `writev` on an open descriptor, and the
dispatcher calls `OnEventIOWriteable` only if the client is not closed; but there
`OnConnect` runs first if the connection was being made, and `connect_` does not tell
whether it closed the client.
-/

namespace Jengine.Net

open Jengine.Lib Jengine.Memory RefMemoryChunk

namespace ClientIO

/-- The assertion of `AddToDispatcher` fails: the client is connected a second time. -/
def AddsTwice (s : ClientIO) : Action → Prop
  | .accept | .dial _ => s.linked = true
  | _ => False

/-- An assertion fails in the step, and it is one of `ModifyIOEvent`: the descriptor is closed,
    or the dispatcher does not have the client. -/
def ModifiesClosed (s : ClientIO) (a : Action) : Prop :=
  s.aborted = false ∧ (s.step a).aborted = true ∧ ¬ AddsTwice s a

/-- When `OnConnect` returns to `OnEventIOWriteable` the client is not closed. -/
def KeepsOpen (s : ClientIO) : Action → Prop
  | .returned _ _ => s.aborted = false → s.phase = .completing → s.fdOpen = true
  | _ => True

/-! ### Where the descriptor is -/

/-- The dispatcher has every client with an open descriptor; one that it has and that is not
    closed has one. -/
structure Attached (s : ClientIO) : Prop where
  opened : s.fdOpen = true → s.linked = true
  registered : s.linked = true → s.closed = false → s.fdOpen = true
  queued : s.queued = true → s.linked = true ∧ s.closed = true ∧ s.fdOpen = false
  completing : s.phase = .completing → s.linked = true ∧ s.connect = true

theorem attached_fresh (m : Bytes) : Attached (fresh m) := by
  constructor <;> nofun

variable {s : ClientIO}

theorem Attached.of_eq {r : ClientIO} (h : Attached s) (hfd : r.fdOpen = s.fdOpen)
    (hlinked : r.linked = s.linked) (hclosed : r.closed = s.closed) (hqueued : r.queued = s.queued)
    (hcompleting : r.phase = .completing → r.linked = true ∧ r.connect = true) : Attached r := by
  constructor
  · rw [hfd, hlinked]
    exact h.opened
  · rw [hfd, hlinked, hclosed]
    exact h.registered
  · rw [hfd, hlinked, hclosed, hqueued]
    exact h.queued
  · exact hcompleting

theorem Attached.phase (h : Attached s) {phase : Phase} (hphase : phase ≠ .completing) :
    Attached { s with phase := phase } :=
  h.of_eq rfl rfl rfl rfl fun hp => absurd hp hphase

theorem Attached.requeue (h : Attached s) (sendq : List RefMemoryChunk) (accepted pushed : List UInt8) :
    Attached { s with sendq := sendq, accepted := accepted, pushed := pushed } :=
  h.of_eq rfl rfl rfl rfl h.completing

theorem Attached.close (h : Attached s) : Attached s.close ∧ s.close.aborted = s.aborted := by
  unfold ClientIO.close
  split
  · rename_i hcond
    rw [Bool.and_eq_true, Bool.not_eq_true'] at hcond
    refine ⟨⟨nofun, nofun, fun _ => ⟨hcond.2, rfl, rfl⟩, h.completing⟩, rfl⟩
  · rename_i hcond
    rw [Bool.and_eq_true, Bool.not_eq_true'] at hcond
    refine ⟨⟨nofun, ?_, ?_, h.completing⟩, rfl⟩
    · exact fun hlinked hclosed => absurd ⟨hclosed, hlinked⟩ hcond
    · exact fun hqueued => ⟨(h.queued hqueued).1, (h.queued hqueued).2.1, rfl⟩

/-- On an open descriptor `ModifyIOEvent` succeeds. -/
theorem Attached.modifyIOEvent (h : Attached s) (hfd : s.fdOpen = true) (evt : IOEvent) :
    Attached (s.modifyIOEvent evt) ∧ (s.modifyIOEvent evt).aborted = s.aborted := by
  have hknown : (s.linked && s.fdOpen) = true := by
    rw [h.opened hfd, hfd]
    rfl
  unfold ClientIO.modifyIOEvent
  rw [if_pos hknown]
  exact ⟨h.of_eq rfl rfl rfl rfl h.completing, rfl⟩

theorem Attached.invokeSendLoop (h : Attached s) (answers : List Answer) (sendevt : Bool) :
    Attached ( ClientIO.invokeSendLoop answers s sendevt).1 ∧
      ( ClientIO.invokeSendLoop answers s sendevt).1.aborted = s.aborted := by
  induction answers generalizing s sendevt with
  | nil =>
      unfold ClientIO.invokeSendLoop
      split
      · exact ⟨h, rfl⟩
      split
      · exact h.close
      · rename_i hfd
        rw [Bool.not_eq_true', Bool.not_eq_false] at hfd
        exact h.modifyIOEvent hfd _
  | cons answer answers ih =>
      unfold ClientIO.invokeSendLoop
      split
      · exact ⟨h, rfl⟩
      split
      · exact h.close
      · rename_i hfd
        rw [Bool.not_eq_true', Bool.not_eq_false] at hfd
        cases answer with
        | again => exact h.modifyIOEvent hfd _
        | error => exact h.close
        | accept n =>
            simp only
            split
            · exact ⟨h, rfl⟩
            · exact ih (h.requeue _ _ s.pushed) true

theorem Attached.invokeSend (h : Attached s) (answers : List Answer) :
    Attached ( ClientIO.invokeSend answers s) ∧
      ( ClientIO.invokeSend answers s).aborted = s.aborted := by
  obtain ⟨hloop, haborted⟩ := h.invokeSendLoop answers false
  simp only [ ClientIO.invokeSend]
  split
  · exact ⟨hloop.of_eq rfl rfl rfl rfl hloop.completing, haborted⟩
  · exact ⟨hloop, haborted⟩

theorem Attached.pushSend (h : Attached s) (vs : List RefMemoryChunk) (answers : List Answer) :
    Attached (s.pushSend vs answers) ∧ (s.pushSend vs answers).aborted = s.aborted := by
  unfold ClientIO.pushSend
  split
  · exact (h.requeue _ s.accepted _).invokeSend answers
  · exact ⟨h, rfl⟩

/-- With an open descriptor, or without a connection, the rest of `OnEventIOWriteable` does
    not fail. -/
theorem Attached.writeableRest (h : Attached s) (hrun : s.aborted = false)
    (hfd : s.connect = true → s.fdOpen = true) (answers : List Answer) :
    Attached (s.writeableRest answers) ∧ (s.writeableRest answers).aborted = false := by
  unfold ClientIO.writeableRest
  split
  · rename_i hconnect
    obtain ⟨hmodified, haborted⟩ := h.modifyIOEvent (hfd hconnect) ⟨true, false⟩
    obtain ⟨hsent, haborted'⟩ := hmodified.invokeSend answers
    rw [hrun] at haborted
    simp only
    rw [if_neg (by rw [haborted]; exact Bool.false_ne_true)]
    exact ⟨(hsent.phase (by nofun : Phase.dispatcher ≠ .completing)).of_eq rfl rfl rfl rfl nofun,
      haborted'.trans haborted⟩
  · exact ⟨h.phase nofun, hrun⟩

theorem Attached.readOnce (h : Attached s) (r : Reading) :
    Attached (s.readOnce r) ∧ (s.readOnce r).aborted = s.aborted := by
  unfold ClientIO.readOnce
  split
  · cases r with
    | bytes => exact ⟨h.phase nofun, rfl⟩
    | again => exact ⟨h.phase nofun, rfl⟩
    | eof => exact ⟨h.close.1.phase nofun, h.close.2⟩
    | error => exact ⟨h.close.1.phase nofun, h.close.2⟩
  · exact ⟨h.phase nofun, rfl⟩

/-! ### The steps -/

/-- A client that the dispatcher does not have is added to it. -/
theorem Attached.added (h : Attached s) (hnew : s.linked = false) {r : ClientIO}
    (hfd : r.fdOpen = true) (hlinked : r.linked = true) (hqueued : r.queued = s.queued)
    (hphase : r.phase = .completing → s.phase = .completing) : Attached r := by
  constructor
  · exact fun _ => hlinked
  · exact fun _ _ => hfd
  · intro hq
    rw [hqueued] at hq
    have hold := (h.queued hq).1
    rw [hnew] at hold
    cases hold
  · intro hp
    have hold := (h.completing (hphase hp)).1
    rw [hnew] at hold
    cases hold

/-- No assertion fails in a step that neither connects twice nor returns to
    `OnEventIOWriteable` with the client closed. -/
theorem Attached.step (h : Attached s) (hrun : s.aborted = false) {a : Action}
    (honce : ¬ AddsTwice s a) (hopen : KeepsOpen s a) :
    Attached (s.step a) ∧ (s.step a).aborted = false := by
  unfold ClientIO.step
  rw [if_neg (by rw [hrun]; exact Bool.false_ne_true)]
  cases a with
  | accept =>
      have hnew : s.linked = false := Bool.eq_false_iff.mpr honce
      simp only [addToDispatcher, hnew, Bool.false_eq_true, if_false, hrun]
      exact ⟨h.added hnew rfl rfl rfl nofun, trivial⟩
  | dial rc =>
      have hnew : s.linked = false := Bool.eq_false_iff.mpr honce
      simp only [addToDispatcher, hnew, Bool.false_eq_true, if_false, hrun]
      cases rc with
      | connected => exact ⟨h.added hnew rfl rfl rfl nofun, rfl⟩
      | inProgress => exact ⟨h.added hnew rfl rfl rfl id, rfl⟩
      | failed => exact ⟨h.added hnew rfl rfl rfl nofun, rfl⟩
  | push vs answers =>
      obtain ⟨hpush, haborted⟩ := h.pushSend vs answers
      exact ⟨hpush, haborted.trans hrun⟩
  | close => exact ⟨h.close.1, h.close.2.trans hrun⟩
  | write m => exact ⟨h.of_eq rfl rfl rfl rfl h.completing, hrun⟩
  | writeable failed answers =>
      simp only
      split
      · rename_i hcond
        obtain ⟨-, hlinked, hclosed⟩ := hcond
        have hfd := h.registered hlinked hclosed
        unfold onEventIOWriteable
        split
        · split
          · exact ⟨h.of_eq rfl rfl rfl rfl nofun, hrun⟩
          · exact ⟨h.of_eq rfl rfl rfl rfl fun _ => ⟨hlinked, rfl⟩, hrun⟩
        · exact h.writeableRest hrun (fun _ => hfd) answers
      · exact ⟨h, hrun⟩
  | readable r =>
      simp only
      split
      · obtain ⟨hread, haborted⟩ := h.readOnce r
        exact ⟨hread, haborted.trans hrun⟩
      · exact ⟨h, hrun⟩
  | returned r answers =>
      simp only
      split
      · exact ⟨h, hrun⟩
      · exact ⟨h.phase nofun, hrun⟩
      · rename_i hphase
        exact h.writeableRest hrun (fun _ => hopen hrun hphase) answers
      · exact ⟨h.close.1.phase nofun, h.close.2.trans hrun⟩
      · obtain ⟨hread, haborted⟩ := h.readOnce r
        exact ⟨hread, haborted.trans hrun⟩
  | finalize =>
      simp only
      split
      · rename_i hcond
        obtain ⟨hphase, hqueued⟩ := hcond
        obtain ⟨-, -, hfd⟩ := h.queued hqueued
        refine ⟨⟨?_, nofun, nofun, ?_⟩, hrun⟩
        · intro hfd'
          exact absurd (hfd.symm.trans hfd') Bool.false_ne_true
        · intro hp
          exact absurd (hphase.symm.trans hp) nofun
      · exact ⟨h, hrun⟩

/-- `AddToDispatcher` fails its assertion. -/
theorem aborted_of_addsTwice {a : Action} (hrun : s.aborted = false) (htwice : AddsTwice s a) :
    (s.step a).aborted = true := by
  cases a with
  | accept | dial rc =>
      have hlinked : s.linked = true := htwice
      simp only [step, hrun, addToDispatcher, hlinked, Bool.false_eq_true, if_false, if_true]
  | _ => exact htwice.elim

/-- `ModifyIOEvent` fails its assertion: `connect_` is still set. -/
theorem Attached.aborted_of_closed (h : Attached s) {a : Action} (hrun : s.aborted = false)
    (hclosed : ¬ KeepsOpen s a) : (s.step a).aborted = true ∧ ¬ AddsTwice s a := by
  cases a with
  | returned r answers =>
      refine ⟨?_, id⟩
      have hleft : ¬ (s.aborted = false → s.phase = .completing → s.fdOpen = true) := hclosed
      rw [Classical.not_imp, Classical.not_imp] at hleft
      obtain ⟨-, hphase, hfd⟩ := hleft
      obtain ⟨-, hconnect⟩ := h.completing hphase
      simp [ ClientIO.step, hrun, hphase, ClientIO.writeableRest, hconnect, ClientIO.modifyIOEvent, hfd]
  | _ => exact absurd trivial hclosed

theorem Attached.modifiesClosed_iff (h : s.aborted = false → Attached s) (a : Action) :
    ¬ ModifiesClosed s a ↔ KeepsOpen s a := by
  unfold ModifiesClosed
  rcases hrun : s.aborted with _ | _
  · have hs := h hrun
    constructor
    · intro hnot
      by_contra hclosed
      obtain ⟨haborted, hother⟩ := hs.aborted_of_closed hrun hclosed
      exact hnot ⟨rfl, haborted, hother⟩
    · rintro hopen ⟨-, haborted, hother⟩
      obtain ⟨-, hfine⟩ := hs.step hrun hother hopen
      rw [hfine] at haborted
      cases haborted
  · refine iff_of_true (fun hnot => by cases hnot.1) ?_
    cases a with
    | returned r answers =>
        intro hno
        rw [hrun] at hno
        cases hno
    | _ => trivial

theorem step_of_aborted (h : s.aborted = true) (a : Action) : s.step a = s := if_pos h

/-- The invariant of the clients whose process has not been aborted. -/
theorem attached_step (h : s.aborted = false → Attached s) (a : Action) :
    (s.step a).aborted = false → Attached (s.step a) := by
  intro hnext
  rcases hrun : s.aborted with _ | _
  · by_cases htwice : AddsTwice s a
    · rw [aborted_of_addsTwice hrun htwice] at hnext
      cases hnext
    · by_cases hopen : KeepsOpen s a
      · exact ((h hrun).step hrun htwice hopen).1
      · rw [((h hrun).aborted_of_closed hrun hopen).1] at hnext
        cases hnext
  · rw [step_of_aborted hrun, hrun] at hnext
    cases hnext

theorem modifiesClosed_along_iff_of (h : s.aborted = false → Attached s) (as : List Action) :
    Along step (fun s a => ¬ ModifiesClosed s a) s as ↔ Along step KeepsOpen s as := by
  refine along_congr (I := fun s => s.aborted = false → Attached s) ?_ ?_ h as
  · intro s a h
    exact Attached.modifiesClosed_iff h a
  · intro s a h _
    exact attached_step h a

/-- **`ModifyIOEvent` is never called on a closed client, exactly if no `OnConnect` that
    `OnEventIOWriteable` calls leaves the client closed.** -/
theorem modifiesClosed_along_iff (m : Bytes) (as : List Action) :
    Along step (fun s a => ¬ ModifiesClosed s a) (fresh m) as ↔
      Along step KeepsOpen (fresh m) as :=
  modifiesClosed_along_iff_of (fun _ => attached_fresh m) as

/-- A connection is made, and `OnConnect` sends something that the socket refuses. -/
def refusedInOnConnect : List Action :=
  [.dial .inProgress, .writeable false [], .push [⟨0, 0, 0, 4⟩] [.error], .returned .again []]

/-- `ModifyIOEvent` is called with `fd_ == -1`. -/
theorem refusedInOnConnect_aborted :
    (run step (fresh fun _ _ => 0) refusedInOnConnect).aborted = true ∧
      ¬ Along step (fun s a => ¬ ModifiesClosed s a) (fresh fun _ _ => 0) refusedInOnConnect := by
  refine ⟨by decide, ?_⟩
  rintro ⟨-, -, -, hmodifies, -⟩
  exact hmodifies ⟨by decide, by decide, id⟩

end ClientIO

end Jengine.Net
