import Jengine.Dbo.Statement
import Jengine.Lib.Runs
import Mathlib.Data.List.Nodup

/-!
# The callback of `Execute`

A statement runs its callback in `HandleResponse`, in the branches that set the
last phase, and in `HandleClose`, which the `Connection` calls when the server
connection of its current statement is lost (`base/dbo_bk/statement.cpp`,
`preparedstatement.cpp`, `connection.cpp`).  `HandleClose` looks at `cb_` only:
it neither sets the phase nor tests it.

The machine is one `Connection` with its current statement.  Every call of
`Execute` has a number, `cb` is the number of the one whose callback is in `cb_`,
and `called` lists the callbacks that were run.  Which `RealConnection` is
acquired, with which prepared statements in its cache, and which packets come
over it, is in the actions.
-/

namespace Jengine.Dbo

open Jengine.Lib

namespace StatementBase

variable {r : RealConnection} {st : StatementBase}

/-- `Execute` has not been called. -/
def isNew (st : StatementBase) : Bool :=
  match st.kind with
  | .statement phase => phase == .statementNew
  | .prepared p => p.phase == .prepareNew

/-- `HandleResponse` has come to `cb_(rs_)`: the statement is in the last phase and was not
    before. -/
def runsCallback (st : StatementBase) (call : Call) : Bool := !st.isFinish && call.stmt.isFinish

/-! ### Phases -/

/-- A packet for a statement that is finished changes nothing. -/
theorem handleResponse_of_isFinish (h : st.isFinish = true) (payload : Payload) :
    (st.handleResponse r payload).stmt = st := by
  obtain ⟨id, sql, sequenctId, rs, kind⟩ := st
  cases kind with
  | statement phase =>
      obtain rfl : phase = .statementFinish := LawfulBEq.eq_of_beq h
      rfl
  | prepared p =>
      have hphase : p.phase = .prepareFinish := LawfulBEq.eq_of_beq h
      simp only [handleResponse, handlePreparedResponse, hphase]

/-- Nor does one for a statement that is new. -/
theorem handleResponse_of_isNew (h : st.isNew = true) (payload : Payload) :
    (st.handleResponse r payload).stmt = st := by
  obtain ⟨id, sql, sequenctId, rs, kind⟩ := st
  cases kind with
  | statement phase =>
      obtain rfl : phase = .statementNew := LawfulBEq.eq_of_beq h
      rfl
  | prepared p =>
      have hphase : p.phase = .prepareNew := LawfulBEq.eq_of_beq h
      simp only [handleResponse, handlePreparedResponse, hphase]

/-- Whether a statement is finished or new does not depend on its sequence id. -/
theorem phases_sequenctId (id : UInt8) :
    ({ st with sequenctId := id } : StatementBase).isFinish = st.isFinish ∧
      ({ st with sequenctId := id } : StatementBase).isNew = st.isNew := ⟨rfl, rfl⟩

theorem handleRawResponse_of_isFinish (h : st.isFinish = true) (pktin : PacketIn) :
    (st.handleRawResponse r pktin).stmt.isFinish = true := by
  unfold handleRawResponse
  split
  · rw [handleResponse_of_isFinish (by rw [(phases_sequenctId _).1, h])]
    exact h
  · exact h

theorem handleRawResponse_of_isNew (h : st.isNew = true) (pktin : PacketIn) :
    (st.handleRawResponse r pktin).stmt.isNew = true := by
  unfold handleRawResponse
  split
  · rw [handleResponse_of_isNew (by rw [(phases_sequenctId _).2, h])]
    exact h
  · exact h

theorem isFinish_of_isNew (h : st.isNew = true) : st.isFinish = false ∧ st.isWait = false := by
  obtain ⟨id, sql, sequenctId, rs, kind⟩ := st
  cases kind with
  | statement phase =>
      obtain rfl : phase = .statementNew := LawfulBEq.eq_of_beq h
      exact ⟨rfl, rfl⟩
  | prepared p =>
      have hphase : p.phase = .prepareNew := LawfulBEq.eq_of_beq h
      simp [isFinish, isWait, hphase]

theorem isFinish_of_isWait (h : st.isWait = true) : st.isFinish = false := by
  obtain ⟨id, sql, sequenctId, rs, kind⟩ := st
  cases kind with
  | statement phase =>
      obtain rfl : phase = .statementWait := LawfulBEq.eq_of_beq h
      rfl
  | prepared p =>
      have hphase : p.phase = .prepareWait := LawfulBEq.eq_of_beq h
      simp [isFinish, hphase]

/-- Starting the execution does not finish a statement. -/
theorem callRealExecute_isFinish : (st.callRealExecute r).stmt.isFinish = st.isFinish := by
  unfold callRealExecute
  split
  · rename_i hwait
    rw [isFinish_of_isWait hwait]
    obtain ⟨id, sql, sequenctId, rs, kind⟩ := st
    cases kind with
    | statement phase => rfl
    | prepared p =>
      have hphase : p.phase = .prepareWait := LawfulBEq.eq_of_beq hwait
      simp only [onCallRealExecute]
      split
      · rfl
      · unfold handlePrepareFinish
        simp only
        split
        · simp [isFinish, setPrepared, hphase]
        · split
          · simp [isFinish, setPrepared, hphase]
          · rfl
  · rfl

theorem callRealExecute_of_isNew (h : st.isNew = true) : (st.callRealExecute r).stmt = st := by
  unfold callRealExecute
  rw [(isFinish_of_isNew h).2]
  rfl

theorem beginExecute_isFinish {st' : StatementBase} (h : st.beginExecute = some st') :
    st'.isFinish = false := by
  obtain ⟨id, sql, sequenctId, rs, kind⟩ := st
  cases kind with
  | statement phase =>
      simp only [beginExecute] at h
      split at h
      · cases h
        rfl
      · cases h
  | prepared p =>
      cases h
      rfl

theorem setParam_phases : st.setParam.isFinish = st.isFinish ∧ st.setParam.isNew = st.isNew := by
  obtain ⟨id, sql, sequenctId, rs, kind⟩ := st
  cases kind <;> exact ⟨rfl, rfl⟩

end StatementBase

/-! ### The machine -/

/-- A `Connection` with its current statement. -/
structure Executor where
  real : Option RealConnection
  stmt : Option StatementBase
  /-- `cb_` of the current statement. -/
  cb : Option Nat
  /-- How often `Execute` has been called. -/
  executes : Nat
  stmtCount : Nat
  called : List Nat
  /-- An assertion has failed. -/
  aborted : Bool

namespace Executor

def new : Executor where
  real := none
  stmt := none
  cb := none
  executes := 0
  stmtCount := 0
  called := []
  aborted := false

/-- What a call on the current statement leaves behind. -/
def leave (s : Executor) (call : Call) : Executor :=
  { s with real := some call.real, stmt := some call.stmt
           aborted := s.aborted || call.exit == some .assertion }

/-- `CreateStatement` and `CreatePreparedStatement`; nothing changes if they throw
    "another statement under progress". -/
def createStatement (s : Executor) (sql : String) (kind : Kind) : Executor :=
  if s.stmt.all StatementBase.isFinish = true then
    { s with stmt := some ⟨s.stmtCount, sql, 0, .parseNew, kind⟩, cb := none
             stmtCount := s.stmtCount + 1 }
  else s

/-- `Execute` on the current statement. -/
def execute (s : Executor) : Executor :=
  match s.stmt with
  | none => s
  | some st =>
      match st.beginExecute with
      | none => { s with aborted := true }
      | some st =>
          let s := { s with stmt := some st, cb := some s.executes, executes := s.executes + 1 }
          match s.real with
          | none => s
          | some r => s.leave (st.callRealExecute r)

/-- `OnAquireRealConnectionSuccess`; a `Connection` asks once. -/
def onAquireRealConnectionSuccess (s : Executor) (r : RealConnection) : Executor :=
  match s.real with
  | some _ => s
  | none =>
      match s.stmt with
      | none => { s with real := some r }
      | some st => s.leave (st.callRealExecute r)

/-- `OnReceivePacket`. -/
def onReceivePacket (s : Executor) (pktin : PacketIn) : Executor :=
  match s.real, s.stmt with
  | some r, some st =>
      if r.connect = true then
        let call := st.handleRawResponse r pktin
        { s.leave call with
          called := if st.runsCallback call = true then s.called ++ s.cb.toList else s.called }
      else s
  | _, _ => s

/-- `RealConnection::OnClose`, then `OnClose`, then `HandleClose`. -/
def onClose (s : Executor) : Executor :=
  match s.real with
  | none => s
  | some r =>
      if r.connect = true then
        { s with real := some { r with connect := false }, called := s.called ++ s.cb.toList }
      else s

inductive Action where
  | createStatement (sql : String)
  | createPreparedStatement (sql : String)
  | setParam
  | execute
  | acquire (r : RealConnection)
  | receive (pktin : PacketIn)
  /-- The connection to the server is lost. -/
  | lose

def step (s : Executor) (a : Action) : Executor :=
  if s.aborted = true then s
  else
    match a with
    | .createStatement sql => s.createStatement sql (.statement .statementNew)
    | .createPreparedStatement sql => s.createStatement sql (.prepared ⟨.prepareNew, 0, 0⟩)
    | .setParam => { s with stmt := s.stmt.map StatementBase.setParam }
    | .execute => s.execute
    | .acquire r => s.onAquireRealConnectionSuccess r
    | .receive pktin => s.onReceivePacket pktin
    | .lose => s.onClose

/-- No callback was run twice, and a statement whose callback was run is finished. -/
def CalledRight (s : Executor) : Prop :=
  s.called.Nodup ∧ ∀ st n, s.stmt = some st → s.cb = some n → n ∈ s.called → st.isFinish = true

/-- The server connection is not lost while the current statement has been executed. -/
def Kept (s : Executor) (a : Action) : Prop :=
  match a with
  | .lose => s.aborted = false → ∀ r ∈ s.real, r.connect = true → s.cb = none
  | _ => True

/-- A callback was run exactly if its statement is finished. -/
structure Inv (s : Executor) : Prop where
  nodup : s.called.Nodup
  called_lt : ∀ n ∈ s.called, n < s.executes
  cb_lt : ∀ n ∈ s.cb, n < s.executes
  hasStmt : s.stmt = none → s.cb = none
  fresh : ∀ st, s.stmt = some st → s.cb = none → st.isNew = true
  finished : ∀ st n, s.stmt = some st → s.cb = some n → (n ∈ s.called ↔ st.isFinish = true)

theorem Inv.calledRight {s : Executor} (h : Inv s) : CalledRight s :=
  ⟨h.nodup, fun st n hst hcb => (h.finished st n hst hcb).mp⟩

theorem inv_new : Inv new where
  nodup := List.nodup_nil
  called_lt := by simp [new]
  cb_lt := by simp [new]
  hasStmt := fun _ => rfl
  fresh := by simp [new]
  finished := by simp [new]

variable {s : Executor}

/-- The current statement is replaced by one that is as new and as finished. -/
theorem Inv.replace (h : Inv s) {st st' : StatementBase} (hst : s.stmt = some st)
    (hnew : st.isNew = true → st'.isNew = true) (hfinish : st'.isFinish = st.isFinish)
    (real : Option RealConnection) (aborted : Bool) :
    Inv { s with real := real, stmt := some st', aborted := aborted } where
  nodup := h.nodup
  called_lt := h.called_lt
  cb_lt := h.cb_lt
  hasStmt := fun hnone => by cases hnone
  fresh := by
    rintro _ ⟨⟩ hcb
    exact hnew (h.fresh st hst hcb)
  finished := by
    rintro _ n ⟨⟩ hcb
    rw [hfinish]
    exact h.finished st n hst hcb

/-- Nothing but the real connection and the failure of assertions is changed. -/
theorem Inv.of_same (h : Inv s) (real : Option RealConnection) (aborted : Bool) :
    Inv { s with real := real, aborted := aborted } :=
  ⟨h.nodup, h.called_lt, h.cb_lt, h.hasStmt, h.fresh, h.finished⟩

theorem inv_createStatement (h : Inv s) (sql : String) (kind : Kind)
    (hnew : ∀ id sql sequenctId rs, (⟨id, sql, sequenctId, rs, kind⟩ : StatementBase).isNew = true) :
    Inv (s.createStatement sql kind) := by
  unfold createStatement
  split
  · refine ⟨h.nodup, h.called_lt, by simp, by simp, ?_, by simp⟩
    rintro _ ⟨⟩ _
    exact hnew _ _ _ _
  · exact h

theorem inv_setParam (h : Inv s) : Inv { s with stmt := s.stmt.map StatementBase.setParam } := by
  refine ⟨h.nodup, h.called_lt, h.cb_lt, ?_, ?_, ?_⟩
  · intro hnone
    exact h.hasStmt (Option.map_eq_none_iff.mp hnone)
  · intro st' hst' hcb
    obtain ⟨st, hst, rfl⟩ := Option.map_eq_some_iff.mp hst'
    rw [StatementBase.setParam_phases.2]
    exact h.fresh st hst hcb
  · intro st' n hst' hcb
    obtain ⟨st, hst, rfl⟩ := Option.map_eq_some_iff.mp hst'
    rw [StatementBase.setParam_phases.1]
    exact h.finished st n hst hcb

theorem inv_execute (h : Inv s) : Inv s.execute := by
  unfold execute
  split
  · exact h
  · rename_i st hst
    split
    · exact h.of_same _ _
    · rename_i st' hbegin
      have hfinish := StatementBase.beginExecute_isFinish hbegin
      have hbegun : Inv { s with stmt := some st', cb := some s.executes
                                 executes := s.executes + 1 } := by
        refine ⟨h.nodup, ?_, ?_, by simp, by simp, ?_⟩
        · intro n hn
          exact Nat.lt_succ_of_lt (h.called_lt n hn)
        · rintro n ⟨⟩
          exact Nat.lt_succ_self _
        · rintro _ _ ⟨⟩ ⟨⟩
          rw [hfinish]
          simp only [Bool.false_eq_true, iff_false]
          intro hmem
          exact Nat.lt_irrefl _ (h.called_lt _ hmem)
      simp only
      split
      · exact hbegun
      · rename_i r hreal
        refine hbegun.replace rfl ?_ StatementBase.callRealExecute_isFinish _ _
        intro hnew
        rw [StatementBase.callRealExecute_of_isNew hnew]
        exact hnew

theorem inv_onAquireRealConnectionSuccess (h : Inv s) (r : RealConnection) :
    Inv (s.onAquireRealConnectionSuccess r) := by
  unfold onAquireRealConnectionSuccess
  split
  · exact h
  · split
    · exact h.of_same _ _
    · rename_i st hst
      refine h.replace hst ?_ StatementBase.callRealExecute_isFinish _ _
      intro hnew
      rw [StatementBase.callRealExecute_of_isNew hnew]
      exact hnew

theorem inv_onReceivePacket (h : Inv s) (pktin : PacketIn) : Inv (s.onReceivePacket pktin) := by
  unfold onReceivePacket
  split
  · rename_i r st hreal hst
    split
    · have hnew (h : st.isNew = true) : (st.handleRawResponse r pktin).stmt.isNew = true :=
        StatementBase.handleRawResponse_of_isNew h pktin
      have hfinish (h : st.isFinish = true) :
          (st.handleRawResponse r pktin).stmt.isFinish = true :=
        StatementBase.handleRawResponse_of_isFinish h pktin
      generalize st.handleRawResponse r pktin = call at hnew hfinish
      simp only [StatementBase.runsCallback, Bool.and_eq_true, Bool.not_eq_true']
      split
      · rename_i hruns
        -- the callback of an `Execute` that is not finished was not run before
        rcases hcb : s.cb with _ | n
        · have hstnew := h.fresh st hst hcb
          have hnot := (StatementBase.isFinish_of_isNew (hnew hstnew)).1
          rw [hruns.2] at hnot
          cases hnot
        · have hnotcalled : n ∉ s.called := by
            rw [h.finished st n hst hcb, hruns.1]
            exact Bool.false_ne_true
          refine ⟨?_, ?_, ?_, ?_, ?_, ?_⟩
          · exact List.nodup_append.mpr ⟨h.nodup, List.nodup_singleton n, by
              intro a ha b hb
              rw [List.mem_singleton.mp hb]
              rintro rfl
              exact hnotcalled ha⟩
          · intro a ha
            rcases List.mem_append.mp ha with ha | ha
            · exact h.called_lt a ha
            · rw [List.mem_singleton.mp ha]
              exact h.cb_lt n hcb
          · exact h.cb_lt
          · intro hnone
            cases hnone
          · intro st' _ hnone
            exact absurd (hcb.symm.trans hnone) (by simp)
          · rintro _ m ⟨⟩ hm
            obtain rfl : n = m := Option.some.inj (hcb.symm.trans hm)
            simp only [hruns.2, iff_true]
            exact List.mem_append_right _ (List.mem_singleton_self n)
      · rename_i hquiet
        refine h.replace hst hnew ?_ _ _
        rcases hst' : st.isFinish with _ | _
        · rw [hst'] at hquiet
          simpa using hquiet
        · exact hfinish hst'
    · exact h
  · exact h

theorem inv_onClose (h : Inv s) (hcb : ∀ r ∈ s.real, r.connect = true → s.cb = none) :
    Inv s.onClose := by
  unfold onClose
  split
  · exact h
  · rename_i r hreal
    split
    · rename_i hconnect
      have hcalled : s.called ++ s.cb.toList = s.called := by
        rw [hcb r hreal hconnect, Option.toList_none, List.append_nil]
      rw [hcalled]
      exact h.of_same _ _
    · exact h

theorem step_inv {a : Action} (h : Inv s) (hkept : Kept s a) : Inv (s.step a) := by
  unfold step
  split
  · exact h
  · rename_i haborted
    cases a with
    | createStatement sql => exact inv_createStatement h sql _ fun _ _ _ _ => rfl
    | createPreparedStatement sql => exact inv_createStatement h sql _ fun _ _ _ _ => rfl
    | setParam => exact inv_setParam h
    | execute => exact inv_execute h
    | acquire r => exact inv_onAquireRealConnectionSuccess h r
    | receive pktin => exact inv_onReceivePacket h pktin
    | lose => exact inv_onClose h (hkept (Bool.eq_false_iff.mpr haborted))

/-- Losing the connection of a statement that was executed runs a callback a second time, or
    that of a statement which is not finished. -/
theorem not_calledRight_of_lost {a : Action} (h : Inv s) (hlost : ¬ Kept s a) :
    ¬ CalledRight (s.step a) := by
  rintro ⟨hnodup, hfinished⟩
  cases a with
  | lose =>
      simp only [Kept, not_forall] at hlost
      obtain ⟨haborted, r, hreal, hconnect, hcb⟩ := hlost
      obtain ⟨n, hcb⟩ := Option.ne_none_iff_exists'.mp hcb
      have hstep : s.step .lose = { s with real := some { r with connect := false }
                                           called := s.called ++ [n] } := by
        simp only [step, haborted, Bool.false_eq_true, if_false, onClose,
          show s.real = some r from hreal, hconnect, if_true, hcb, Option.toList_some]
      rw [hstep] at hnodup hfinished
      rcases hst : s.stmt with _ | st
      · rw [h.hasStmt hst] at hcb
        cases hcb
      · have hfinish := hfinished st n hst hcb (List.mem_append_right _ (List.mem_singleton_self n))
        have hcalled := (h.finished st n hst hcb).mpr hfinish
        exact List.disjoint_of_nodup_append hnodup hcalled (List.mem_singleton_self n)
  | _ => exact hlost trivial

theorem calledRight_step_iff (h : Inv s) (a : Action) : CalledRight (s.step a) ↔ Kept s a := by
  constructor
  · intro hright
    by_contra hlost
    exact not_calledRight_of_lost h hlost hright
  · intro hkept
    exact (step_inv h hkept).calledRight

theorem along_kept_iff (h : Inv s) (as : List Action) :
    Along step (fun s a => CalledRight (s.step a)) s as ↔ Along step Kept s as := by
  refine along_congr (I := Inv) (fun s a h => calledRight_step_iff h a) ?_ h as
  intro s a h hright
  exact step_inv h ((calledRight_step_iff h a).mp hright)

/-- **In every run, callbacks are run at most once, and by finished statements, exactly if the
    connection to the server is never lost while a statement that was executed is held.** -/
theorem calledRight_along_iff (as : List Action) :
    Along step (fun s a => CalledRight (s.step a)) new as ↔ Along step Kept new as :=
  along_kept_iff inv_new as

/-- A query is answered, and then the server goes away. -/
def answeredAndLost : List Action :=
  [.acquire .authorized, .createStatement "select 1", .execute, .receive ⟨1, .plain packetOk, 0⟩,
    .lose]

/-- The callback is run with the answer and once more with the loss. -/
theorem answeredAndLost_called :
    (run step new answeredAndLost).called = [0, 0] ∧
      ¬ Along step (fun s a => CalledRight (s.step a)) new answeredAndLost := by
  refine ⟨by decide, ?_⟩
  rintro ⟨-, -, -, -, ⟨hnodup, -⟩, -⟩
  revert hnodup
  decide

end Executor

end Jengine.Dbo
