import Jengine.Dbo.Ownership

/-!
# Replies and their statements

Every step of the pool keeps the invariant, if the server owes nothing when a `Connection`
is destroyed or executes its statement; so every packet is handed to the statement whose
command it answers.  A `Connection` that is destroyed while its statement waits leaves the
reply to the next one.
-/

namespace Jengine.Dbo

open Jengine.Lib

namespace RealConnectionPool

/-! ### The steps -/

theorem isOpen_connect {real : RealConnection} (h : real.isOpen = true) : real.connect = true := by
  unfold RealConnection.isOpen at h
  exact (Bool.and_eq_true_iff.1 h).1

/-- The owner executes a statement when the server owes nothing. -/
theorem Sound.callRealExecute {s : RealConnectionPool} (h : Sound s) {c r : Nat}
    {st : StatementBase} (hhandler : (s.reals r).dataHandler = some c) (hwaits : st.waits = false)
    (hopen : (s.reals r).isOpen = true → (s.reals r).Settled ∧ st.rs.AtRest) :
    Sound (s.leave c r (st.callRealExecute (s.reals r))) := by
  obtain ⟨hconnect, hclosed, hdata, hhanded, -⟩ :=
    StatementBase.callRealExecute_keeps (s.reals r) st
  refine h.update _ hhandler (hdata.trans hhandler) ?_ ?_ _ _
  · rw [hhanded]
    exact h.right r
  · intro hopen'
    have hsame : (s.reals r).isOpen = true := by
      unfold RealConnection.isOpen at hopen' ⊢
      rw [← hconnect, ← hclosed]
      exact hopen'
    obtain ⟨hsettled, hrs⟩ := hopen hsame
    exact StatementBase.callRealExecute_inStep (isOpen_connect hsame) hsettled hrs hwaits

theorem Sound.onAquire {s : RealConnectionPool} (h : Sound s) {c r : Nat} {free rest : List Nat}
    (hfree : s.free = r :: free) (hqueue : s.aquireList = c :: rest) (busy : List Nat) :
    Sound (onAquireRealConnectionSuccess
      { s with free := free, aquireList := rest, busy := busy } c r).1 := by
  have hattach := h.attach hfree hqueue busy
  unfold onAquireRealConnectionSuccess
  split
  · exact hattach
  next st hst =>
    obtain ⟨halive, hnone⟩ := h.queued c (by simp [hqueue])
    obtain ⟨hwaits, hrs⟩ := h.unsent c st halive hnone hst
    refine hattach.callRealExecute ?_ hwaits ?_
    · simp [RealConnectionPool.attach]
    · intro hopen
      refine ⟨?_, hrs⟩
      simp only [RealConnectionPool.attach, Function.update_self] at hopen ⊢
      exact h.settled hopen (h.unowned r (by simp [hfree]))

/-- The loop of `CheckAquireList`. -/
theorem Sound.checkAquire {s : RealConnectionPool} (h : Sound s) (n : Nat) :
    Sound (checkAquire n s) := by
  induction n generalizing s with
  | zero => exact h
  | succ n ih =>
      unfold RealConnectionPool.checkAquire
      split
      next r free c rest hfree hqueue =>
        have hgot := h.onAquire hfree hqueue (s.busy ++ [r])
        dsimp only
        split
        · exact ih hgot
        · exact hgot
      · exact h

theorem Sound.checkAquireList {s : RealConnectionPool} (h : Sound s) : Sound s.checkAquireList :=
  h.checkAquire s.aquireList.length

/-- A new `RealConnection` is authorized. -/
theorem Sound.authorized {s : RealConnectionPool} (h : Sound s) :
    Sound { s with
      reals := Function.update s.reals s.realCount .authorized
      realCount := s.realCount + 1
      free := s.free ++ [s.realCount] } := by
  obtain ⟨hnone, hfree⟩ := h.reals_fresh s.realCount (Nat.le_refl _)
  have hreal := h.setReal .authorized hnone rfl nofun fun _ => ⟨rfl, rfl⟩
  have hcount : Sound { s.setReal s.realCount .authorized with realCount := s.realCount + 1 } :=
    { hreal with reals_fresh := fun r hr => hreal.reals_fresh r (Nat.le_of_succ_le hr) }
  refine hcount.pushFree (Nat.lt_succ_self _) hfree ?_
  dsimp only [RealConnectionPool.setReal]
  rw [Function.update_self]
  rfl

theorem Sound.onAuthSuccess {s : RealConnectionPool} (h : Sound s) : Sound s.onAuthSuccess :=
  h.authorized.checkAquireList

/-- A new `Connection` is put into the list. -/
theorem Sound.enqueue {s : RealConnectionPool} (h : Sound s) :
    Sound { s with
      conns := Function.update s.conns s.connCount ⟨true, none, none⟩
      connCount := s.connCount + 1
      aquireList := s.aquireList ++ [s.connCount] } := by
  have hdead := h.conns_fresh s.connCount (Nat.le_refl _)
  have hne : ∀ {c}, (s.conns c).alive = true → c ≠ s.connCount := by
    rintro c halive rfl
    exact absurd (halive.symm.trans hdead) (by simp)
  refine { h with queue_nodup := ?_, queued := ?_, matched := ?_, served := ?_, unsent := ?_,
                  conns_fresh := ?_ }
  · dsimp only
    rw [List.nodup_append]
    refine ⟨h.queue_nodup, List.nodup_singleton _, ?_⟩
    rintro c hc c' hc' rfl
    rw [List.mem_singleton] at hc'
    exact hne (h.queued c hc).1 hc'
  · intro c hc
    dsimp only at hc ⊢
    rcases List.mem_append.1 hc with hc | hc
    · rw [Function.update_of_ne (hne (h.queued c hc).1)]
      exact h.queued c hc
    · rw [List.mem_singleton.1 hc, Function.update_self]
      exact ⟨rfl, rfl⟩
  · have hkept : (⟨true, none, none⟩ : Connection).held = (s.conns s.connCount).held :=
      (Connection.held_dead hdead).symm
    rw [held_update, hkept, Function.update_eq_self]
    exact h.matched
  · intro r hopen
    exact h.served_other rfl (h.not_owner (Connection.held_dead hdead) r) hopen
  · intro c st halive hnone hst
    dsimp only at halive hnone hst
    by_cases hc : c = s.connCount
    · rw [hc, Function.update_self] at hst
      cases hst
    · rw [Function.update_of_ne hc] at halive hnone hst
      exact h.unsent c st halive hnone hst
  · intro c hc
    dsimp only at hc ⊢
    rw [Function.update_of_ne (by omega)]
    exact h.conns_fresh c (by omega)

theorem Sound.create {s : RealConnectionPool} (h : Sound s) : Sound s.create :=
  h.enqueue.checkAquireList

/-- A finished statement, or none, makes place for a new one. -/
theorem Sound.createStatement {s : RealConnectionPool} (h : Sound s) {c : Nat} {sql : String}
    {kind : Kind} (halive : (s.conns c).alive = true)
    (hkind : ∀ id, (⟨id, sql, 0, .parseNew, kind⟩ : StatementBase).waits = false) :
    Sound (s.createStatement c sql kind) := by
  unfold RealConnectionPool.createStatement
  split
  case isFalse => exact h
  case isTrue hfinish =>
    cases hreal : (s.conns c).realconn with
    | none => exact h.setStmt hreal ⟨hkind s.stmtCount, .inl rfl⟩ (s.stmtCount + 1)
    | some r =>
        have hhandler := h.owned halive hreal
        have hsame := h.update (some ⟨s.stmtCount, sql, 0, .parseNew, kind⟩) hhandler hhandler
          (h.right r) ?_ s.aborted (s.stmtCount + 1)
        · rw [Function.update_eq_self] at hsame
          exact hsame
        · intro hopen
          have hfollows := h.follows hopen hhandler
          refine .idle (hkind s.stmtCount) (.inl rfl) ?_
          cases hst : (s.conns c).curStmt with
          | none =>
              rw [hst] at hfollows
              exact hfollows
          | some st =>
              rw [hst] at hfollows hfinish
              exact hfollows.settled (StatementBase.waits_of_isFinish hfinish)

theorem Sound.setParam {s : RealConnectionPool} (h : Sound s) {c : Nat}
    (halive : (s.conns c).alive = true) : Sound (s.setParam c) := by
  unfold RealConnectionPool.setParam
  split
  · exact h
  next st hst =>
    cases hreal : (s.conns c).realconn with
    | none =>
        obtain ⟨hwaits, hrs⟩ := h.unsent c st halive hreal hst
        obtain ⟨hwaits', hrs'⟩ := st.waits_setParam
        exact h.setStmt hreal ⟨hwaits'.trans hwaits, hrs' ▸ hrs⟩ s.stmtCount
    | some r =>
        have hhandler := h.owned halive hreal
        have hsame := h.update (some st.setParam) hhandler hhandler (h.right r) ?_
          s.aborted s.stmtCount
        · rw [Function.update_eq_self] at hsame
          exact hsame
        · intro hopen
          have hfollows := h.follows hopen hhandler
          rw [hst] at hfollows
          exact InStep.setParam hfollows

theorem Sound.execute {s : RealConnectionPool} (h : Sound s) {c : Nat}
    (halive : (s.conns c).alive = true)
    (hanswered : ∀ r ∈ (s.conns c).realconn, (s.reals r).isOpen = true → (s.reals r).Settled) :
    Sound (s.execute c) := by
  unfold RealConnectionPool.execute
  split
  · exact h
  next st hst =>
    split
    · exact { h with }
    next st' hbegin =>
      obtain ⟨hwaits, hrs⟩ := StatementBase.waits_beginExecute hbegin
      split
      next hnone =>
        obtain ⟨-, hrest⟩ := h.unsent c st halive hnone hst
        exact h.setStmt hnone ⟨hwaits, hrs ▸ hrest⟩ s.stmtCount
      next r hreal =>
        have hhandler := h.owned halive hreal
        refine h.callRealExecute hhandler hwaits ?_
        intro hopen
        have hsettled := hanswered r hreal hopen
        have hfollows := h.follows hopen hhandler
        rw [hst] at hfollows
        exact ⟨hsettled, hrs ▸ hfollows.atRest hsettled⟩

theorem checkAquire_alive (n : Nat) (s : RealConnectionPool) (c : Nat) :
    ((checkAquire n s).conns c).alive = (s.conns c).alive := by
  induction n generalizing s with
  | zero => rfl
  | succ n ih =>
      unfold RealConnectionPool.checkAquire
      split
      next r free c' rest hfree hqueue =>
        have hgot : ((onAquireRealConnectionSuccess { s with
              free := free, aquireList := rest, busy := s.busy ++ [r] } c' r).1.conns c).alive =
            (s.conns c).alive := by
          unfold onAquireRealConnectionSuccess
          by_cases hc : c = c'
          · subst hc
            split <;> simp [RealConnectionPool.attach, RealConnectionPool.leave]
          · split <;> simp [RealConnectionPool.attach, RealConnectionPool.leave, hc]
        dsimp only
        split
        · rw [ih, hgot]
        · exact hgot
      · rfl

/-- The destructor gives an open `RealConnection` back to the pool. -/
theorem Sound.giveBack {s : RealConnectionPool} (h : Sound s) {c r : Nat}
    (hhandler : (s.reals r).dataHandler = some c)
    (hsettled : (s.reals r).isOpen = true → (s.reals r).Settled) (busy : List Nat) :
    Sound { s.setConn c { s.conns c with alive := false } with
      reals := Function.update s.reals r { s.reals r with dataHandler := none }
      busy := busy
      free := s.free ++ [r] } := by
  refine (h.detach hhandler hsettled busy).pushFree ?_ ?_ ?_
  · by_contra hge
    have hfresh := (h.reals_fresh r (Nat.le_of_not_lt hge)).1
    exact absurd (hfresh.symm.trans hhandler) (by simp)
  · intro hmem
    exact absurd ((h.unowned r hmem).symm.trans hhandler) (by simp)
  · dsimp only
    rw [Function.update_self]

/-- The destructor of the owner has released its `RealConnection`. -/
theorem Sound.release {s : RealConnectionPool} (h : Sound s) {c r : Nat}
    (hhandler : (s.reals r).dataHandler = some c)
    (hsettled : (s.reals r).isOpen = true → (s.reals r).Settled) :
    Sound ((s.setConn c { s.conns c with alive := false }).releaseRealConnection r) ∧
      (((s.setConn c { s.conns c with alive := false }).releaseRealConnection r).conns c).alive =
        false := by
  unfold releaseRealConnection
  dsimp only
  split
  · constructor
    · exact (h.giveBack hhandler hsettled _).checkAquireList
    · unfold RealConnectionPool.checkAquireList
      rw [checkAquire_alive]
      simp [setConn]
  · refine ⟨h.detach hhandler hsettled _, ?_⟩
    simp [setConn]

theorem Sound.destroy {s : RealConnectionPool} (h : Sound s) {c : Nat}
    (halive : (s.conns c).alive = true) (hqueue : c ∉ s.aquireList)
    (hanswered : ∀ r ∈ (s.conns c).realconn, (s.reals r).isOpen = true → (s.reals r).Settled) :
    Sound (s.destroy c) := by
  unfold RealConnectionPool.destroy
  dsimp only
  split
  next hnone =>
    have hheld : (s.conns c).held = none := by simp [Connection.held, hnone]
    refine (h.setConn_dead hqueue hheld rfl).setConn_dead hqueue ?_ rfl
    simp [setConn, Connection.held]
  next r hreal =>
    obtain ⟨hsound, hdead⟩ := h.release (h.owned halive hreal) (hanswered r hreal)
    refine hsound.setConn_dead ?_ (Connection.held_dead hdead) rfl
    intro hmem
    exact absurd ((hsound.queued c hmem).1.symm.trans hdead) (by simp)

theorem Sound.serve {s : RealConnectionPool} (h : Sound s) (r : Nat) (reply : Reply) :
    Sound (s.setReal r ((s.reals r).serve reply)) := by
  have hkeeps : ((s.reals r).serve reply).dataHandler = (s.reals r).dataHandler ∧
      ((s.reals r).serve reply).handed = (s.reals r).handed ∧
      ((s.reals r).serve reply).isOpen = (s.reals r).isOpen := by
    unfold RealConnection.serve
    split
    · exact ⟨rfl, rfl, rfl⟩
    · split <;> exact ⟨rfl, rfl, rfl⟩
  obtain ⟨hdata, hhanded, hopen⟩ := hkeeps
  refine h.setReal_kept hdata hhanded ?_
  intro hreal
  refine ⟨hopen ▸ hreal, ?_, fun st hst => RealConnection.serve_inStep hst reply⟩
  intro hsettled
  have hserve : (s.reals r).serve reply = s.reals r := by
    simp [RealConnection.serve, hsettled.1]
  rw [hserve]
  exact hsettled

/-- No packet is received on a `RealConnection` that is closed. -/
theorem Sound.close {s : RealConnectionPool} (h : Sound s) (r : Nat) (real : RealConnection)
    (hkept : real.dataHandler = (s.reals r).dataHandler) (hhanded : real.handed = (s.reals r).handed)
    (hclosed : real.closed = true) : Sound (s.setReal r real) := by
  refine h.setReal_kept hkept hhanded ?_
  intro hopen
  simp [RealConnection.isOpen, hclosed] at hopen

theorem Sound.onClose {s : RealConnectionPool} (h : Sound s) (r : Nat) : Sound (s.onClose r) := by
  unfold RealConnectionPool.onClose
  split
  case isFalse => exact h
  case isTrue hclosed =>
    have hreal := h.close r { s.reals r with connect := false } rfl rfl hclosed
    refine { hreal with free_nodup := ?_, unowned := ?_, reals_fresh := ?_ }
    · exact h.free_nodup.filter _
    · intro r' hr'
      exact hreal.unowned r' (List.mem_of_mem_filter hr')
    · intro r' hr'
      obtain ⟨hnone, hfree⟩ := hreal.reals_fresh r' hr'
      exact ⟨hnone, fun hmem => hfree (List.mem_of_mem_filter hmem)⟩

/-- A packet that is received is the next one of the reply that the owner's statement
    waits for. -/
theorem Sound.receive {s : RealConnectionPool} (h : Sound s) (r : Nat) : Sound (s.receive r) := by
  unfold RealConnectionPool.receive
  split
  case isFalse => exact h
  case isTrue hopen =>
    split
    · exact h
    next pktin rest hstream =>
      have hunsettled : ¬(s.reals r).Settled := by
        intro hsettled
        exact absurd (hsettled.2.symm.trans hstream) (by simp)
      unfold onReceivePacket RealConnectionPool.setReal
      dsimp only
      rw [Function.update_self]
      split
      next hhandler => exact absurd (h.settled hopen hhandler) hunsettled
      next c hhandler =>
        have hfollows := h.follows hopen hhandler
        split
        next hst =>
          rw [hst] at hfollows
          exact absurd hfollows hunsettled
        next st hst =>
          rw [hst] at hfollows
          obtain ⟨hanswers, hstep⟩ := StatementBase.handleRawResponse_inStep hfollows
            (isOpen_connect hopen) hstream
          obtain ⟨-, -, hdata, -, hhanded⟩ :=
            st.handleRawResponse_keeps { s.reals r with stream := rest } pktin
          unfold RealConnectionPool.leave
          dsimp only
          rw [Function.update_idem]
          refine h.update (some _) hhandler (hdata.trans hhandler) ?_ (fun _ => hstep) _ _
          intro e he
          rcases hhanded e he with he | rfl
          · exact h.right r e he
          · exact hanswers

/-! ### Runs -/

theorem Sound.step {s : RealConnectionPool} (h : Sound s) (a : Action) (ha : s.Answered a) :
    Sound (s.step a) := by
  unfold RealConnectionPool.step
  split
  case isTrue => exact h
  case isFalse =>
    cases a with
    | authSuccess => exact h.onAuthSuccess
    | create => exact h.create
    | createStatement c sql =>
        simp only [act]
        split
        case isTrue halive => exact h.createStatement halive fun _ => rfl
        case isFalse => exact h
    | createPreparedStatement c sql =>
        simp only [act]
        split
        case isTrue halive => exact h.createStatement halive fun _ => rfl
        case isFalse => exact h
    | setParam c =>
        simp only [act]
        split
        case isTrue halive => exact h.setParam halive
        case isFalse => exact h
    | execute c =>
        simp only [act]
        split
        case isTrue halive => exact h.execute halive ha
        case isFalse => exact h
    | destroy c =>
        simp only [act]
        split
        case isTrue hc => exact h.destroy hc.1 hc.2 ha
        case isFalse => exact h
    | serve r reply => exact h.serve r reply
    | receive r => exact h.receive r
    | close r => exact h.close r { s.reals r with closed := true } rfl rfl rfl
    | ioClose r => exact h.onClose r

theorem run_sound {as : List Action} (has : Along step Answered start as) :
    Sound (run step start as) :=
  run_invariant (fun _ a ht ha => ht.step a ha) sound_start has

/-- In every run in which no `Connection` is destroyed and no statement is executed again
    while the server owes packets on its `RealConnection`, every packet is handed to the
    statement whose command it answers. -/
theorem run_answered (as : List Action) (has : Along step Answered start as) :
    ∀ r, ∀ e ∈ ((run step start as).reals r).handed, e.2.answers = e.1 :=
  (run_sound has).right

/-- In such a run a `Connection` whose statement does not wait for a reply may be destroyed. -/
theorem run_settled {as : List Action} (has : Along step Answered start as) {c : Nat}
    (halive : ((run step start as).conns c).alive = true)
    (hwaits : ∀ st ∈ ((run step start as).conns c).curStmt, st.waits = false) :
    (run step start as).Answered (.destroy c) := by
  have h := run_sound has
  intro r hreal hopen
  have hfollows := h.follows hopen (h.owned halive hreal)
  cases hst : ((run step start as).conns c).curStmt with
  | none =>
      rw [hst] at hfollows
      exact hfollows
  | some st =>
      rw [hst] at hfollows
      exact hfollows.settled (hwaits st hst)

/-- Two `Connection`s wait for the first `RealConnection`; the first prepares and executes
    a statement and is destroyed after the last row, and the second one gets its own reply. -/
def inTurn : List Action :=
  [.create, .createPreparedStatement 0 "select a from t where b = ?", .setParam 0, .execute 0,
    .create, .createStatement 1 "commit", .execute 1, .authSuccess,
    .serve 0 (.prepared 7 [⟨3, by decide⟩] [⟨3, by decide⟩]),
    .receive 0, .receive 0, .receive 0, .receive 0, .receive 0,
    .serve 0 (.resultset ⟨1, by decide⟩ [⟨3, by decide⟩] [⟨0, by decide⟩] false),
    .receive 0, .receive 0, .receive 0, .receive 0, .receive 0,
    .destroy 0, .serve 0 .ok, .receive 0, .destroy 1]

theorem run_answered_inTurn :
    Along step Answered start inTurn ∧
      ((run step start inTurn).reals 0).handed.map (fun e => (e.1, e.2.sequenceId)) =
        [(0, 1), (0, 2), (0, 3), (0, 4), (0, 5), (0, 1), (0, 2), (0, 3), (0, 4), (0, 5), (1, 1)] ∧
      ∀ e ∈ ((run step start inTurn).reals 0).handed, e.2.answers = e.1 := by
  have has : Along step Answered start inTurn := by decide +kernel
  exact ⟨has, by decide +kernel, run_answered inTurn has 0⟩

/-- A `Connection` is destroyed while its statement waits for the reply, and the next one
    executes a statement on the same `RealConnection`. -/
def lateReply : List Action :=
  [.authSuccess, .create, .createStatement 0 "select a from t", .execute 0, .destroy 0,
    .create, .createStatement 1 "select b from t", .execute 1, .serve 0 .ok, .receive 0]

/-- The second statement gets the reply to the first one, and takes it for its own. -/
theorem not_answered_lateReply :
    ((run step start lateReply).reals 0).handed = [(1, ⟨1, .plain packetOk, 0⟩)] ∧
      ((run step start lateReply).conns 1).curStmt =
        some ⟨1, "select b from t", 2, .parseFinish, .statement .statementFinish⟩ ∧
      ¬∀ r, ∀ e ∈ ((run step start lateReply).reals r).handed, e.2.answers = e.1 := by
  have hhanded : ((run step start lateReply).reals 0).handed = [(1, ⟨1, .plain packetOk, 0⟩)] := by
    decide +kernel
  refine ⟨hhanded, by decide +kernel, ?_⟩
  intro h
  have hwrong := h 0 (1, ⟨1, .plain packetOk, 0⟩) (by simp [hhanded])
  cases hwrong

end RealConnectionPool

end Jengine.Dbo
