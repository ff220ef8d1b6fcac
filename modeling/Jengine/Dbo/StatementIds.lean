import Jengine.Dbo.LateReply

/-!
# The ids of prepared statements

The server gives a prepared statement an id, and a `RealConnection` keeps the id for the text of
the statement (`prepared_stmt_pool_`, `base/dbo_bk/internal/realconnection.h`), so that another
statement with the same text is not prepared again.  `Connection`s come and go on it, and
`PreparedStatement` executes what the pool says.

Which ids the server gives is a relation here, of a connection, a text and an id.  In a run in
which nobody leaves replies behind, a statement is executed under an id of its own text.
-/

namespace Jengine.Dbo

open Jengine.Lib

/-! ### One connection and its statement -/

/-- A command that a statement is waiting for the answer to; a prepared statement is executed
    under an id of its text. -/
def Asks (ids : String → Nat → Prop) (st : StatementBase) : Command → Prop
  | .comQuery text => text = st.sql ∧ st.kind = .statement .statementWaitResponse
  | .comStmtPrepare text => text = st.sql ∧
      ∃ p, st.kind = .prepared p ∧ p.phase = .prepareWaitPrepareResponse
  | .comStmtExecute statementId => ids st.sql statementId ∧
      ∃ p, st.kind = .prepared p ∧ p.phase = .prepareWaitExecResponse

/-- There is metadata with an id of the text. -/
def RealConnection.HasId (ids : String → Nat → Prop) (real : RealConnection) (sql : String)
    (m : Nat) : Prop :=
  m < real.allocated ∧ ids sql (real.metadata m).statementId

/-- What `FetchCachedPreparedStatement` returns has an id of the text. -/
def RealConnection.Cached (ids : String → Nat → Prop) (real : RealConnection) : Prop :=
  ∀ sql m, real.preparedStmtPool sql = some m → real.HasId ids sql m

/-- The metadata of a statement that is being prepared: the packets of the answer that are not
    received yet give it an id, or it has one. -/
def Defined (ids : String → Nat → Prop) (real : RealConnection) (st : StatementBase)
    (p : Prepared) : Prop :=
  match p.phase with
  | .prepareWaitPrepareResponse => ∀ pktin rest, real.stream = pktin :: rest →
      pktin.payload.first = packetOk → ids st.sql pktin.payload.statementId
  | .prepareWaitPrepareResponseParamDef | .prepareWaitPrepareResponseColumnDef =>
      real.HasId ids st.sql p.metadataPstmt
  | _ => True

/-- What is kept on a connection, and what its statement has sent and is told, is as the server
    has named it. -/
structure Named (ids : String → Nat → Prop) (real : RealConnection)
    (cur : Option StatementBase) : Prop where
  cached : real.Cached ids
  sent : ∀ pktout ∈ real.sent, ∃ st, cur = some st ∧ pktout.sender = st.id ∧
    Asks ids st pktout.command
  defined : ∀ st p, cur = some st → st.kind = .prepared p → Defined ids real st p

section Calls

variable {ids : String → Nat → Prop} {real : RealConnection} {st : StatementBase}

theorem defined_of_waits {p : Prepared} (hkind : st.kind = .prepared p)
    (hwaits : st.waits = false) : Defined ids real st p := by
  simp only [StatementBase.waits, hkind] at hwaits
  unfold Defined
  cases hphase : p.phase <;> simp_all

/-- Nobody owns the connection. -/
theorem Named.unowned (hcached : real.Cached ids) (hsent : real.sent = []) :
    Named ids real none where
  cached := hcached
  sent := fun pktout hpktout => by
    rw [hsent] at hpktout
    exact absurd hpktout List.not_mem_nil
  defined := fun st _ hst => absurd hst.symm (Option.some_ne_none st)

/-- No command waits for its answer. -/
theorem Named.silent (hcached : real.Cached ids) (hsent : real.sent = [])
    (hdefined : ∀ p, st.kind = .prepared p → Defined ids real st p) :
    Named ids real (some st) where
  cached := hcached
  sent := fun pktout hpktout => by
    rw [hsent] at hpktout
    exact absurd hpktout List.not_mem_nil
  defined := fun st' p hst hkind => by
    obtain rfl := Option.some.inj hst
    exact hdefined p hkind

theorem Named.quiet (hcached : real.Cached ids) (hsent : real.sent = [])
    (hwaits : st.waits = false) : Named ids real (some st) :=
  .silent hcached hsent fun _ hkind => defined_of_waits hkind hwaits

/-- A command of the statement is sent when no other is. -/
theorem Named.send {pktout : PacketOut} (hcached : real.Cached ids)
    (hsent : real.sent = []) (hsender : pktout.sender = st.id)
    (hasks : Asks ids st pktout.command)
    (hdefined : ∀ p, st.kind = .prepared p → Defined ids real st p) :
    Named ids (real.send pktout) (some st) := by
  have hsilent : Named ids real (some st) := .silent hcached hsent hdefined
  unfold RealConnection.send
  split
  · refine { hsilent with sent := ?_ }
    intro p hp
    obtain rfl : p = pktout := by simpa [hsent] using hp
    exact ⟨st, rfl, hsender, hasks⟩
  · exact hsilent

/-- The statement is executed under the id that its metadata has. -/
theorem handlePrepareFinish_named {p : Prepared} (hcached : real.Cached ids)
    (hsent : real.sent = [])
    (hid : real.HasId ids st.sql p.metadataPstmt) (hwaits : (st.setPrepared p).waits = false) :
    Named ids (StatementBase.handlePrepareFinish real st p).real
      (some (StatementBase.handlePrepareFinish real st p).stmt) := by
  unfold StatementBase.handlePrepareFinish
  dsimp only
  split
  · exact .quiet hcached hsent hwaits
  split
  · exact .quiet hcached hsent hwaits
  · refine .send hcached hsent rfl ⟨hid.2, _, rfl, rfl⟩ ?_
    intro p' hkind
    obtain rfl := Kind.prepared.inj hkind
    trivial

/-- A statement is executed on a connection on which nothing is owed. -/
theorem callRealExecute_named (hcached : real.Cached ids) (hsettled : real.Settled)
    (hwaits : st.waits = false) :
    Named ids (StatementBase.callRealExecute real st).real
      (some (StatementBase.callRealExecute real st).stmt) := by
  unfold StatementBase.callRealExecute StatementBase.onCallRealExecute
  split
  case isFalse => exact .quiet hcached hsettled.1 hwaits
  case isTrue hwait =>
    split
    next phase hkind =>
      refine .send hcached hsettled.1 rfl ⟨rfl, rfl⟩ ?_
      intro p hkind'
      cases hkind'
    next p hkind =>
      split
      · refine .send hcached hsettled.1 rfl ⟨rfl, _, rfl, rfl⟩ ?_
        intro p' hkind'
        obtain rfl := Kind.prepared.inj hkind'
        intro pktin rest hnext
        exact absurd (hsettled.2.symm.trans hnext) (by simp)
      next m hm =>
        refine handlePrepareFinish_named hcached hsettled.1 (hcached st.sql m hm) ?_
        simpa [StatementBase.waits, StatementBase.setPrepared, hkind] using hwaits

/-! ### The answer to a prepare -/

/-- New metadata is kept beside the old. -/
theorem cached_savePreparedStatementCache (sql : String) (pstmt : PreparedStatementMetadata)
    (hcached : real.Cached ids) (hid : ids sql pstmt.statementId) :
    (real.savePreparedStatementCache sql pstmt).Cached ids := by
  intro sql' m hm
  dsimp only [RealConnection.savePreparedStatementCache] at hm
  unfold RealConnection.HasId
  dsimp only [RealConnection.savePreparedStatementCache]
  by_cases hsql : sql' = sql
  · subst hsql
    rw [Function.update_self] at hm
    obtain rfl := Option.some.inj hm
    rw [Function.update_self]
    exact ⟨Nat.lt_succ_self _, hid⟩
  · rw [Function.update_of_ne hsql] at hm
    obtain ⟨hlt, hold⟩ := hcached sql' m hm
    rw [Function.update_of_ne (Nat.ne_of_lt hlt)]
    exact ⟨Nat.lt_succ_of_lt hlt, hold⟩

/-- A definition changes no id. -/
theorem hasId_update {pstmt : PreparedStatementMetadata} {sql : String} {m m' : Nat}
    (hid : pstmt.statementId = (real.metadata m').statementId) (h : real.HasId ids sql m) :
    ({ real with metadata := Function.update real.metadata m' pstmt } : RealConnection).HasId
      ids sql m := by
  refine ⟨h.1, ?_⟩
  dsimp only
  by_cases hm : m = m'
  · subst hm
    rw [Function.update_self, hid]
    exact h.2
  · rw [Function.update_of_ne hm]
    exact h.2

/-- One more definition of the statement is received. -/
theorem Named.update {pstmt : PreparedStatementMetadata} {p : Prepared}
    (hcached : real.Cached ids)
    (hsent : real.sent = []) (hkind : st.kind = .prepared p)
    (hphase : p.phase ≠ .prepareWaitPrepareResponse)
    (hdefined : Defined ids real st p)
    (hid : pstmt.statementId = (real.metadata p.metadataPstmt).statementId) :
    Named ids { real with metadata := Function.update real.metadata p.metadataPstmt pstmt }
      (some st) := by
  refine .silent (fun sql m hm => hasId_update hid (hcached sql m hm)) hsent ?_
  intro p' hkind'
  obtain rfl := Kind.prepared.inj (hkind.symm.trans hkind')
  unfold Defined at hdefined ⊢
  cases hp : p.phase with
  | prepareWaitPrepareResponse => exact absurd hp hphase
  | prepareWaitPrepareResponseParamDef | prepareWaitPrepareResponseColumnDef =>
      rw [hp] at hdefined
      exact hasId_update hid hdefined
  | prepareNew | prepareWait | preparePrepareOk | prepareWaitExecResponse | prepareFinish =>
      trivial

/-- The statement takes the id from the answer, if it is not an error. -/
theorem handlePrepareResponse_named {p : Prepared} {payload : Payload} {ps : List Payload}
    (hcached : real.Cached ids)
    (hsent : real.sent = []) (hkind : st.kind = .prepared p)
    (hphase : p.phase = .prepareWaitPrepareResponse) (hps : st.Expects real (payload :: ps))
    (hid : payload.first = packetOk → ids st.sql payload.statementId) :
    Named ids (StatementBase.handlePrepareResponse real st p payload).real
      (some (StatementBase.handlePrepareResponse real st p payload).stmt) := by
  simp only [StatementBase.Expects, hkind, hphase] at hps
  obtain ⟨-, h | ⟨id, params, columns, h⟩⟩ := hps
  · obtain ⟨rfl, rfl⟩ := List.cons_eq_cons.1 h
    exact .quiet hcached hsent rfl
  · obtain ⟨rfl, rfl⟩ := List.cons_eq_cons.1 h
    have hnew := cached_savePreparedStatementCache st.sql
      ⟨id, columns.length, params.length, 0, 0⟩ hcached (hid rfl)
    have hown := hnew st.sql real.allocated (Function.update_self _ _ _)
    have hsame : (real.savePreparedStatementCache st.sql
        ⟨id, columns.length, params.length, 0, 0⟩).sent = [] := hsent
    have hdefined : ∀ p', (p'.phase = .prepareWaitPrepareResponseParamDef ∨
        p'.phase = .prepareWaitPrepareResponseColumnDef) → p'.metadataPstmt = real.allocated →
        Named ids (real.savePreparedStatementCache st.sql
          ⟨id, columns.length, params.length, 0, 0⟩) (some (st.setPrepared p')) := by
      intro p' hp' hm
      refine .silent hnew hsame ?_
      intro p'' hkind'
      obtain rfl := Kind.prepared.inj hkind'
      unfold Defined
      rw [hm]
      rcases hp' with hp' | hp' <;> rw [hp'] <;> exact hown
    unfold StatementBase.handlePrepareResponse
    rw [if_pos rfl]
    dsimp only
    split
    · exact hdefined _ (.inl rfl) rfl
    split
    · exact hdefined _ (.inr rfl) rfl
    · exact handlePrepareFinish_named hnew hsame hown rfl

/-- One packet for a prepared statement. -/
theorem handlePreparedResponse_named {p : Prepared} {payload : Payload} {ps : List Payload}
    (hcached : real.Cached ids)
    (hsent : real.sent = []) (hkind : st.kind = .prepared p)
    (hps : st.Expects real (payload :: ps))
    (hid : p.phase = .prepareWaitPrepareResponse → payload.first = packetOk →
      ids st.sql payload.statementId)
    (hdefined : p.phase ≠ .prepareWaitPrepareResponse → Defined ids real st p) :
    Named ids (StatementBase.handlePreparedResponse real st p payload).real
      (some (StatementBase.handlePreparedResponse real st p payload).stmt) := by
  have hdefinition : p.phase ≠ .prepareWaitPrepareResponse → ∀ pstmt,
      pstmt.statementId = (real.metadata p.metadataPstmt).statementId → Named ids
        { real with metadata := Function.update real.metadata p.metadataPstmt pstmt }
        (some st) :=
    fun hphase _ hsame => .update hcached hsent hkind hphase (hdefined hphase) hsame
  unfold StatementBase.handlePreparedResponse
  split
  next hphase => exact handlePrepareResponse_named hcached hsent hkind hphase hps (hid hphase)
  next hphase =>
    have hnot : p.phase ≠ .prepareWaitPrepareResponse := by simp [hphase]
    have hown : real.HasId ids st.sql p.metadataPstmt := by
      simpa only [Defined, hphase] using hdefined hnot
    split
    · split
      · refine .silent hcached hsent ?_
        intro p' hkind'
        obtain rfl := Kind.prepared.inj hkind'
        exact hown
      · exact handlePrepareFinish_named hcached hsent hown rfl
    · exact hdefinition hnot _ rfl
  next hphase =>
    have hnot : p.phase ≠ .prepareWaitPrepareResponse := by simp [hphase]
    have hown : real.HasId ids st.sql p.metadataPstmt := by
      simpa only [Defined, hphase] using hdefined hnot
    split
    · exact handlePrepareFinish_named hcached hsent hown rfl
    · exact hdefinition hnot _ rfl
  next hphase =>
    have hnot : p.phase ≠ .prepareWaitPrepareResponse := by simp [hphase]
    have hsame : ∀ rs, Named ids real (some { st with rs := rs }) := by
      intro rs
      refine .silent hcached hsent ?_
      intro p' hkind'
      obtain rfl := Kind.prepared.inj (hkind.symm.trans hkind')
      unfold Defined
      rw [hphase]
      trivial
    split
    · exact hsame st.rs
    · exact .quiet hcached hsent rfl
    · exact hsame _
  all_goals
    next hphase => simp [StatementBase.Expects, hkind, hphase] at hps

/-- The next packet of the reply that the statement waits for. -/
theorem handleResponse_named {payload : Payload} {ps : List Payload}
    (hcached : real.Cached ids) (hsent : real.sent = [])
    (hps : st.Expects real (payload :: ps))
    (hid : ∀ p, st.kind = .prepared p → p.phase = .prepareWaitPrepareResponse →
      payload.first = packetOk → ids st.sql payload.statementId)
    (hdefined : ∀ p, st.kind = .prepared p → p.phase ≠ .prepareWaitPrepareResponse →
      Defined ids real st p) :
    Named ids (StatementBase.handleResponse real st payload).real
      (some (StatementBase.handleResponse real st payload).stmt) := by
  unfold StatementBase.handleResponse
  split
  next phase hkind =>
    have hsame : ∀ rs, Named ids real (some { st with rs := rs }) := by
      intro rs
      refine .silent hcached hsent ?_
      intro p hkind'
      cases hkind.symm.trans hkind'
    split
    · exact hsame st.rs
    · split
      · exact hsame st.rs
      · exact .quiet hcached hsent rfl
      · exact hsame _
  next p hkind =>
    exact handlePreparedResponse_named hcached hsent hkind hps (hid p hkind) (hdefined p hkind)

theorem handleRawResponse_named {pktin : PacketIn} {rest : List PacketIn}
    (h : Named ids real (some st)) (hstep : InStep real st) (hnext : real.stream = pktin :: rest) :
    Named ids (StatementBase.handleRawResponse { real with stream := rest } st pktin).real
      (some (StatementBase.handleRawResponse { real with stream := rest } st pktin).stmt) := by
  cases hstep with
  | idle hwaits hrs hsettled => exact absurd (hsettled.2.symm.trans hnext) (by simp)
  | asked pktout hsent hstream hsender hid hfits =>
      exact absurd (hstream.symm.trans hnext) (by simp)
  | answered ps hsent hstream hps =>
      cases ps with
      | nil => exact absurd (hstream.symm.trans hnext) (by simp [numbered])
      | cons payload ps =>
          obtain ⟨rfl, rfl⟩ := List.cons_eq_cons.1 (hnext.symm.trans hstream)
          unfold StatementBase.handleRawResponse
          rw [if_pos rfl]
          refine handleResponse_named h.cached hsent hps ?_ ?_
          · intro p hkind hphase hok
            have hid := h.defined st p rfl hkind
            unfold Defined at hid
            rw [hphase] at hid
            exact hid _ _ hnext hok
          · intro p hkind hphase
            have hid := h.defined st p rfl hkind
            unfold Defined at hid ⊢
            cases hp : p.phase with
            | prepareWaitPrepareResponse => exact absurd hp hphase
            | _ =>
                rw [hp] at hid
                exact hid

/-- A parameter is set while the statement is executed. -/
theorem setParam_named (h : Named ids real (some st)) : Named ids real (some st.setParam) := by
  obtain ⟨id, sql, sequenctId, rs, kind⟩ := st
  cases kind with
  | statement phase => exact h
  | prepared p =>
      refine ⟨h.cached, ?_, ?_⟩
      · intro pktout hpktout
        obtain ⟨st, hst, hsender, hasks⟩ := h.sent pktout hpktout
        obtain rfl := Option.some.inj hst
        refine ⟨_, rfl, hsender, ?_⟩
        cases hcommand : pktout.command with
        | comQuery text =>
            rw [hcommand] at hasks
            cases hasks.2
        | comStmtPrepare text | comStmtExecute statementId =>
            rw [hcommand] at hasks
            obtain ⟨hids, p', hkind, hphase⟩ := hasks
            obtain rfl := Kind.prepared.inj hkind
            exact ⟨hids, _, rfl, hphase⟩
      · intro st p' hst hkind
        obtain rfl := Option.some.inj hst
        obtain rfl := Kind.prepared.inj hkind
        exact h.defined ⟨id, sql, sequenctId, rs, .prepared p⟩ p rfl rfl

end Calls

/-! ### The server -/

namespace RealConnectionPool

/-- The text that the server is asked to prepare next. -/
def prepares (real : RealConnection) : Option String :=
  match real.sent with
  | ⟨_, .comStmtPrepare sql, _⟩ :: _ => some sql
  | _ => none

/-- The id in the answer to a prepare is one that the server gives to the text. -/
def Gives (ids : Nat → String → Nat → Prop) (s : RealConnectionPool) : Action → Prop
  | .serve r (.prepared statementId _ _) => ∀ sql ∈ prepares (s.reals r), ids r sql statementId
  | _ => True

instance decidableGives (ids : Nat → String → Nat → Prop) [∀ r sql id, Decidable (ids r sql id)]
    (s : RealConnectionPool) (a : Action) : Decidable (s.Gives ids a) := by
  unfold Gives
  split <;> infer_instance

theorem serve_named {ids : String → Nat → Prop} {real : RealConnection}
    {cur : Option StatementBase} {reply : Reply} (h : Named ids real cur)
    (hfollows : Follows real cur)
    (hgives : ∀ statementId params columns, reply = .prepared statementId params columns →
      ∀ sql ∈ prepares real, ids sql statementId) :
    Named ids (real.serve reply) cur := by
  unfold RealConnection.serve
  split
  · exact h
  next pktout rest hsent =>
    split
    case isFalse => exact h
    case isTrue hfits =>
      obtain ⟨st, rfl, hsender, hasks⟩ := h.sent pktout (by simp [hsent])
      obtain ⟨rfl, hstream⟩ : rest = [] ∧ real.stream = [] := by
        cases hfollows with
        | idle _ _ hsettled => exact absurd (hsettled.1.symm.trans hsent) (by simp)
        | asked pktout' hsent' hstream =>
            obtain ⟨-, rfl⟩ := List.cons_eq_cons.1 (hsent.symm.trans hsent')
            exact ⟨rfl, hstream⟩
        | answered ps hsent' => exact absurd (hsent'.symm.trans hsent) (by simp)
      refine .silent h.cached rfl ?_
      intro p hkind
      have hdefined := h.defined st p rfl hkind
      unfold Defined at hdefined ⊢
      cases hphase : p.phase with
      | prepareWaitPrepareResponse =>
          intro pktin rest hnext hok
          rw [hstream, List.nil_append] at hnext
          cases hcommand : pktout.command with
          | comQuery text =>
              rw [hcommand] at hasks
              cases hkind.symm.trans hasks.2
          | comStmtExecute statementId =>
              rw [hcommand] at hasks
              obtain ⟨-, p', hkind', hphase'⟩ := hasks
              obtain rfl := Kind.prepared.inj (hkind.symm.trans hkind')
              cases hphase.symm.trans hphase'
          | comStmtPrepare text =>
              rw [hcommand] at hasks hfits
              obtain ⟨rfl, -⟩ := hasks
              cases reply with
              | ok | resultset => cases hfits
              | err =>
                  obtain ⟨rfl, -⟩ := List.cons_eq_cons.1 hnext
                  cases hok
              | prepared statementId params columns =>
                  obtain ⟨rfl, -⟩ := List.cons_eq_cons.1 hnext
                  refine hgives _ _ _ rfl _ ?_
                  obtain ⟨sequenceId, command, sender⟩ := pktout
                  cases hcommand
                  simp [prepares, hsent]
      | _ =>
          rw [hphase] at hdefined
          exact hdefined

/-! ### The pool -/

/-- Every open connection, with the statement of its owner. -/
def AllNamed (ids : Nat → String → Nat → Prop) (s : RealConnectionPool) : Prop :=
  ∀ r, (s.reals r).isOpen = true → Named (ids r) (s.reals r) (receiver s.reals s.conns r)

variable {ids : Nat → String → Nat → Prop} {s : RealConnectionPool}

theorem allNamed_start : AllNamed ids start := by
  intro r hopen
  cases hopen

/-- The statement that gets the packets of a connection is the same if its owner is, and has
    the same statement. -/
theorem receiver_frame {reals : Nat → RealConnection} {conns : Nat → Connection} {r : Nat}
    (hreal : reals r = s.reals r)
    (hconn : ∀ c, (s.reals r).dataHandler = some c → (conns c).curStmt = (s.conns c).curStmt) :
    receiver reals conns r = receiver s.reals s.conns r := by
  unfold receiver
  rw [hreal]
  cases hhandler : (s.reals r).dataHandler with
  | none => rfl
  | some c => exact hconn c hhandler

/-- Nothing has changed for a connection that is as it was, with the same statement. -/
theorem AllNamed.frame (h : AllNamed ids s) {reals : Nat → RealConnection}
    {conns : Nat → Connection} {r : Nat} (hreal : reals r = s.reals r)
    (hconn : ∀ c, (s.reals r).dataHandler = some c → (conns c).curStmt = (s.conns c).curStmt)
    (hopen : (reals r).isOpen = true) : Named (ids r) (reals r) (receiver reals conns r) := by
  rw [receiver_frame hreal hconn, hreal]
  exact h r (hreal ▸ hopen)

theorem AllNamed.of_owner (h : AllNamed ids s) {r c : Nat}
    (hhandler : (s.reals r).dataHandler = some c) (hopen : (s.reals r).isOpen = true) :
    Named (ids r) (s.reals r) (s.conns c).curStmt := by
  have hnamed := h r hopen
  rw [receiver, hhandler] at hnamed
  exact hnamed

/-- A connection and the statement of its owner change together. -/
theorem AllNamed.update (h : AllNamed ids s) (hsound : Sound s) {c r : Nat} {real : RealConnection}
    (cur : Option StatementBase) (hhandler : (s.reals r).dataHandler = some c)
    (hkept : real.dataHandler = some c)
    (hnamed : real.isOpen = true → Named (ids r) real cur) (aborted : Bool) (stmtCount : Nat) :
    AllNamed ids { s with
      reals := Function.update s.reals r real
      conns := Function.update s.conns c { s.conns c with curStmt := cur }
      aborted := aborted
      stmtCount := stmtCount } := by
  intro r' hopen
  by_cases hr : r' = r
  · subst hr
    dsimp only [receiver] at hopen ⊢
    rw [Function.update_self] at hopen ⊢
    rw [hkept, Option.bind_some, Function.update_self]
    exact hnamed hopen
  · refine h.frame (Function.update_of_ne hr _ _) ?_ hopen
    intro c' hc'
    have hc : c' ≠ c := by
      rintro rfl
      exact hr (hsound.matched.right_unique hc' hhandler)
    exact congrArg Connection.curStmt (Function.update_of_ne hc _ _)

/-- A `Connection` that owns no connection to the server changes. -/
theorem AllNamed.setConn (h : AllNamed ids s) (hsound : Sound s) {c : Nat} (conn : Connection)
    (hheld : (s.conns c).held = none) : AllNamed ids (s.setConn c conn) := by
  intro r hopen
  refine h.frame rfl ?_ hopen
  intro c' hc'
  have hc : c' ≠ c := by
    rintro rfl
    exact hsound.not_owner hheld r hc'
  exact congrArg Connection.curStmt (Function.update_of_ne hc _ _)

/-- A connection changes and keeps its owner. -/
theorem AllNamed.setReal (h : AllNamed ids s) {r : Nat} {real : RealConnection}
    (hkept : real.dataHandler = (s.reals r).dataHandler)
    (hnamed : real.isOpen = true → Named (ids r) real (receiver s.reals s.conns r)) :
    AllNamed ids (s.setReal r real) := by
  intro r' hopen
  by_cases hr : r' = r
  · subst hr
    dsimp only [receiver, RealConnectionPool.setReal] at hopen ⊢
    rw [Function.update_self] at hopen ⊢
    rw [hkept]
    exact hnamed hopen
  · exact h.frame (Function.update_of_ne hr _ _) (fun _ _ => rfl) hopen

/-- A `Connection` gets a connection on which nothing is owed. -/
theorem AllNamed.attach (h : AllNamed ids s) (hsound : Sound s) {c r : Nat} {free rest : List Nat}
    (hfree : s.free = r :: free) (hqueue : s.aquireList = c :: rest) (busy : List Nat) :
    AllNamed ids ({ s with free := free, aquireList := rest, busy := busy }.attach c r) := by
  obtain ⟨halive, hnone⟩ := hsound.queued c (by simp [hqueue])
  have hunowned := hsound.unowned r (by simp [hfree])
  have hunheld : (s.conns c).held = none := by simp [Connection.held, halive, hnone]
  intro r' hopen
  unfold RealConnectionPool.attach at hopen ⊢
  by_cases hr : r' = r
  · subst hr
    dsimp only [receiver] at hopen ⊢
    rw [Function.update_self] at hopen ⊢
    rw [Option.bind_some, Function.update_self]
    have hnamed := h r' hopen
    have hsent := (hsound.settled hopen hunowned).1
    cases hst : (s.conns c).curStmt with
    | none => exact .unowned hnamed.cached hsent
    | some st => exact .quiet hnamed.cached hsent (hsound.unsent c st halive hnone hst).1
  · refine h.frame (Function.update_of_ne hr _ _) ?_ hopen
    intro c' hc'
    have hc : c' ≠ c := by
      rintro rfl
      exact hsound.not_owner hunheld r' hc'
    exact congrArg Connection.curStmt (Function.update_of_ne hc _ _)

/-- The owner executes a statement when the server owes nothing. -/
theorem AllNamed.callRealExecute (h : AllNamed ids s) (hsound : Sound s) {c r : Nat}
    {st : StatementBase} (hhandler : (s.reals r).dataHandler = some c) (hwaits : st.waits = false)
    (hsettled : (s.reals r).isOpen = true → (s.reals r).Settled) :
    AllNamed ids (s.leave c r (st.callRealExecute (s.reals r))) := by
  obtain ⟨hconnect, hclosed, hdata, -, -⟩ := StatementBase.callRealExecute_keeps (s.reals r) st
  refine h.update hsound _ hhandler (hdata.trans hhandler) ?_ _ _
  intro hopen
  have hsame : (s.reals r).isOpen = true := by
    unfold RealConnection.isOpen at hopen ⊢
    rw [← hconnect, ← hclosed]
    exact hopen
  exact callRealExecute_named (h r hsame).cached (hsettled hsame) hwaits

theorem AllNamed.onAquire (h : AllNamed ids s) (hsound : Sound s) {c r : Nat}
    {free rest : List Nat} (hfree : s.free = r :: free) (hqueue : s.aquireList = c :: rest)
    (busy : List Nat) :
    AllNamed ids (onAquireRealConnectionSuccess
      { s with free := free, aquireList := rest, busy := busy } c r).1 := by
  have hattach := h.attach hsound hfree hqueue busy
  unfold onAquireRealConnectionSuccess
  split
  · exact hattach
  next st hst =>
    obtain ⟨halive, hnone⟩ := hsound.queued c (by simp [hqueue])
    refine hattach.callRealExecute (hsound.attach hfree hqueue busy) ?_
      (hsound.unsent c st halive hnone hst).1 ?_
    · simp [RealConnectionPool.attach]
    · intro hopen
      simp only [RealConnectionPool.attach, Function.update_self] at hopen ⊢
      exact hsound.settled hopen (hsound.unowned r (by simp [hfree]))

theorem AllNamed.checkAquire (h : AllNamed ids s) (hsound : Sound s) (n : Nat) :
    AllNamed ids (checkAquire n s) := by
  induction n generalizing s with
  | zero => exact h
  | succ n ih =>
      unfold RealConnectionPool.checkAquire
      split
      next r free c rest hfree hqueue =>
        have hgot := h.onAquire hsound hfree hqueue (s.busy ++ [r])
        dsimp only
        split
        · exact ih hgot (hsound.onAquire hfree hqueue (s.busy ++ [r]))
        · exact hgot
      · exact h

theorem AllNamed.checkAquireList (h : AllNamed ids s) (hsound : Sound s) :
    AllNamed ids s.checkAquireList := h.checkAquire hsound s.aquireList.length

/-- Nothing is kept on a new connection. -/
theorem AllNamed.onAuthSuccess (h : AllNamed ids s) (hsound : Sound s) :
    AllNamed ids s.onAuthSuccess := by
  refine checkAquireList ?_ hsound.authorized
  obtain ⟨hnone, -⟩ := hsound.reals_fresh s.realCount (Nat.le_refl _)
  refine h.setReal hnone.symm fun _ => ?_
  rw [receiver, hnone]
  exact .unowned (fun sql m hm => absurd hm.symm (Option.some_ne_none m)) rfl

theorem AllNamed.create (h : AllNamed ids s) (hsound : Sound s) : AllNamed ids s.create := by
  refine checkAquireList ?_ hsound.enqueue
  exact h.setConn hsound _ (Connection.held_dead (hsound.conns_fresh s.connCount (Nat.le_refl _)))

/-- A statement of a `Connection` that waits for nothing. -/
theorem AllNamed.setStmt (h : AllNamed ids s) (hsound : Sound s) {c : Nat} {st : StatementBase}
    (halive : (s.conns c).alive = true) (stmtCount : Nat)
    (hnamed : ∀ r, (s.reals r).isOpen = true → (s.conns c).realconn = some r →
      Named (ids r) (s.reals r) (some st)) :
    AllNamed ids { s with
      conns := Function.update s.conns c { s.conns c with curStmt := some st }
      stmtCount := stmtCount } := by
  cases hreal : (s.conns c).realconn with
  | none =>
      have hheld : (s.conns c).held = none := by simp [Connection.held, hreal]
      exact h.setConn hsound _ hheld
  | some r =>
      have hhandler := hsound.owned halive hreal
      have hsame := h.update hsound (some st) hhandler hhandler (fun hopen => hnamed r hopen hreal)
        s.aborted stmtCount
      rw [Function.update_eq_self] at hsame
      exact hsame

theorem AllNamed.createStatement (h : AllNamed ids s) (hsound : Sound s) {c : Nat} {sql : String}
    {kind : Kind} (halive : (s.conns c).alive = true)
    (hkind : ∀ id, (⟨id, sql, 0, .parseNew, kind⟩ : StatementBase).waits = false) :
    AllNamed ids (s.createStatement c sql kind) := by
  unfold RealConnectionPool.createStatement
  split
  case isFalse => exact h
  case isTrue hfinish =>
    refine h.setStmt hsound halive _ ?_
    intro r hopen hreal
    have hhandler := hsound.owned halive hreal
    have hfollows := hsound.follows hopen hhandler
    refine .quiet (h.of_owner hhandler hopen).cached ?_ (hkind s.stmtCount)
    cases hst : (s.conns c).curStmt with
    | none =>
        rw [hst] at hfollows
        exact hfollows.1
    | some st =>
        rw [hst] at hfollows hfinish
        exact (hfollows.settled (StatementBase.waits_of_isFinish hfinish)).1

theorem AllNamed.setParam (h : AllNamed ids s) (hsound : Sound s) {c : Nat}
    (halive : (s.conns c).alive = true) : AllNamed ids (s.setParam c) := by
  unfold RealConnectionPool.setParam
  split
  · exact h
  next st hst =>
    refine h.setStmt hsound halive s.stmtCount ?_
    intro r hopen hreal
    have hnamed := h.of_owner (hsound.owned halive hreal) hopen
    rw [hst] at hnamed
    exact setParam_named hnamed

theorem AllNamed.execute (h : AllNamed ids s) (hsound : Sound s) {c : Nat}
    (halive : (s.conns c).alive = true)
    (hanswered : ∀ r ∈ (s.conns c).realconn, (s.reals r).isOpen = true → (s.reals r).Settled) :
    AllNamed ids (s.execute c) := by
  unfold RealConnectionPool.execute
  split
  · exact h
  next st hst =>
    split
    · exact h
    next st' hbegin =>
      obtain ⟨hwaits, -⟩ := StatementBase.waits_beginExecute hbegin
      split
      next hnone =>
        have hheld : (s.conns c).held = none := by simp [Connection.held, hnone]
        exact h.setConn hsound _ hheld
      next r hreal =>
        exact h.callRealExecute hsound (hsound.owned halive hreal) hwaits (hanswered r hreal)

/-- A connection that its owner leaves keeps the ids. -/
theorem AllNamed.detach (h : AllNamed ids s) (hsound : Sound s) {c r : Nat}
    (hhandler : (s.reals r).dataHandler = some c)
    (hsettled : (s.reals r).isOpen = true → (s.reals r).Settled) (busy free : List Nat) :
    AllNamed ids { s.setConn c { s.conns c with alive := false } with
      reals := Function.update s.reals r { s.reals r with dataHandler := none }
      busy := busy
      free := free } := by
  intro r' hopen
  dsimp only [RealConnectionPool.setConn] at hopen ⊢
  by_cases hr : r' = r
  · subst hr
    dsimp only [receiver]
    rw [Function.update_self] at hopen ⊢
    exact .unowned (h r' hopen).cached (hsettled hopen).1
  · refine h.frame (Function.update_of_ne hr _ _) ?_ hopen
    intro c' hc'
    have hc : c' ≠ c := by
      rintro rfl
      exact hr (hsound.matched.right_unique hc' hhandler)
    exact congrArg Connection.curStmt (Function.update_of_ne hc _ _)

theorem AllNamed.destroy (h : AllNamed ids s) (hsound : Sound s) {c : Nat}
    (halive : (s.conns c).alive = true) (hqueue : c ∉ s.aquireList)
    (hanswered : ∀ r ∈ (s.conns c).realconn, (s.reals r).isOpen = true → (s.reals r).Settled) :
    AllNamed ids (s.destroy c) := by
  unfold RealConnectionPool.destroy
  dsimp only
  split
  next hnone =>
    have hheld : (s.conns c).held = none := by simp [Connection.held, hnone]
    refine (h.setConn hsound _ hheld).setConn (hsound.setConn_dead hqueue hheld rfl) _ ?_
    simp [RealConnectionPool.setConn, Connection.held]
  next r hreal =>
    have hhandler := hsound.owned halive hreal
    have hsettled := hanswered r hreal
    obtain ⟨hreleased, hdead⟩ := hsound.release hhandler hsettled
    refine AllNamed.setConn ?_ hreleased _ (Connection.held_dead hdead)
    unfold releaseRealConnection
    dsimp only
    split
    · exact (h.detach hsound hhandler hsettled _ _).checkAquireList
        (hsound.giveBack hhandler hsettled _)
    · exact h.detach hsound hhandler hsettled _ _

theorem AllNamed.serve (h : AllNamed ids s) (hsound : Sound s) (r : Nat) (reply : Reply)
    (hgives : s.Gives ids (.serve r reply)) :
    AllNamed ids (s.setReal r ((s.reals r).serve reply)) := by
  have hkeeps : ((s.reals r).serve reply).dataHandler = (s.reals r).dataHandler ∧
      ((s.reals r).serve reply).isOpen = (s.reals r).isOpen := by
    unfold RealConnection.serve
    split
    · exact ⟨rfl, rfl⟩
    · split <;> exact ⟨rfl, rfl⟩
  refine h.setReal hkeeps.1 ?_
  intro hopen
  rw [hkeeps.2] at hopen
  refine serve_named (h r hopen) (hsound.served r hopen) ?_
  rintro statementId params columns rfl
  exact hgives

/-- Nothing is received on a connection that is closed. -/
theorem AllNamed.close (h : AllNamed ids s) (r : Nat) (real : RealConnection)
    (hkept : real.dataHandler = (s.reals r).dataHandler) (hclosed : real.closed = true) :
    AllNamed ids (s.setReal r real) := by
  refine h.setReal hkept ?_
  intro hopen
  simp [RealConnection.isOpen, hclosed] at hopen

theorem AllNamed.onClose (h : AllNamed ids s) (r : Nat) : AllNamed ids (s.onClose r) := by
  unfold RealConnectionPool.onClose
  split
  case isFalse => exact h
  case isTrue hclosed => exact h.close r { s.reals r with connect := false } rfl hclosed

theorem AllNamed.receive (h : AllNamed ids s) (hsound : Sound s) (r : Nat) :
    AllNamed ids (s.receive r) := by
  unfold RealConnectionPool.receive
  split
  case isFalse => exact h
  case isTrue hopen =>
    split
    · exact h
    next pktin rest hstream =>
      have hunsettled : ¬(s.reals r).Settled := by
        intro hsettled
        exact absurd (hsettled.2.symm.trans hstream) (by simp)
      unfold onReceivePacket RealConnectionPool.setReal
      dsimp only
      rw [Function.update_self]
      split
      next hhandler => exact absurd (hsound.settled hopen hhandler) hunsettled
      next c hhandler =>
        have hfollows := hsound.follows hopen hhandler
        have hnamed := h.of_owner hhandler hopen
        split
        next hst =>
          rw [hst] at hfollows
          exact absurd hfollows hunsettled
        next st hst =>
          rw [hst] at hfollows hnamed
          obtain ⟨-, -, hdata, -, -⟩ :=
            st.handleRawResponse_keeps { s.reals r with stream := rest } pktin
          unfold RealConnectionPool.leave
          dsimp only
          rw [Function.update_idem]
          exact h.update hsound (some _) hhandler (hdata.trans hhandler)
            (fun _ => handleRawResponse_named hnamed hfollows hstream) _ _

/-! ### Runs -/

theorem AllNamed.step (h : AllNamed ids s) (hsound : Sound s) (a : Action) (ha : s.Answered a)
    (hgives : s.Gives ids a) : AllNamed ids (s.step a) := by
  unfold RealConnectionPool.step
  split
  case isTrue => exact h
  case isFalse =>
    cases a with
    | authSuccess => exact h.onAuthSuccess hsound
    | create => exact h.create hsound
    | createStatement c sql | createPreparedStatement c sql =>
        simp only [act]
        split
        case isTrue halive => exact h.createStatement hsound halive fun _ => rfl
        case isFalse => exact h
    | setParam c =>
        simp only [act]
        split
        case isTrue halive => exact h.setParam hsound halive
        case isFalse => exact h
    | execute c =>
        simp only [act]
        split
        case isTrue halive => exact h.execute hsound halive ha
        case isFalse => exact h
    | destroy c =>
        simp only [act]
        split
        case isTrue hc => exact h.destroy hsound hc.1 hc.2 ha
        case isFalse => exact h
    | serve r reply => exact h.serve hsound r reply hgives
    | receive r => exact h.receive hsound r
    | close r => exact h.close r { s.reals r with closed := true } rfl rfl
    | ioClose r => exact h.onClose r

/-- In every run in which nobody leaves replies behind, a command that waits for its answer on
    an open connection is what the current statement of the owner asks for now; a prepared
    statement is executed under an id that the server has given to its text on this connection. -/
theorem run_asks {as : List Action}
    (has : Along step (fun s a => s.Answered a ∧ s.Gives ids a) start as) (r : Nat)
    (hopen : ((run step start as).reals r).isOpen = true) :
    ∀ pktout ∈ ((run step start as).reals r).sent, ∃ c st,
      ((run step start as).reals r).dataHandler = some c ∧
        ((run step start as).conns c).curStmt = some st ∧ pktout.sender = st.id ∧
        Asks (ids r) st pktout.command := by
  have hkeeps : Sound (run step start as) ∧ AllNamed ids (run step start as) := by
    refine run_invariant (I := fun s => Sound s ∧ AllNamed ids s) ?_
      ⟨sound_start, allNamed_start⟩ has
    rintro s a ⟨hsound, hnamed⟩ ⟨ha, hgives⟩
    exact ⟨hsound.step a ha, hnamed.step hsound a ha hgives⟩
  intro pktout hpktout
  obtain ⟨st, hreceiver, hsender, hasks⟩ := (hkeeps.2 r hopen).sent pktout hpktout
  obtain ⟨c, hhandler, hst⟩ := Option.bind_eq_some_iff.1 hreceiver
  exact ⟨c, st, hhandler, hst, hsender, hasks⟩

/-- Two `Connection`s execute statements with one text after each other. -/
def sameText : List Action :=
  [.authSuccess, .create, .createPreparedStatement 0 "select a from t where b = ?", .setParam 0,
    .execute 0, .serve 0 (.prepared 7 [⟨8, by decide⟩] []), .receive 0, .receive 0, .receive 0,
    .serve 0 .ok, .receive 0, .destroy 0,
    .create, .createPreparedStatement 1 "select a from t where b = ?", .setParam 1, .execute 1]

/-- The only id that the server gives. -/
abbrev given (_ : Nat) (sql : String) (statementId : Nat) : Prop :=
  sql = "select a from t where b = ?" ∧ statementId = 7

/-- The second one does not prepare it. -/
theorem run_asks_sameText :
    ((run step start sameText).reals 0).sent = [⟨0, .comStmtExecute 7, 1⟩] ∧
      ∀ pktout ∈ ((run step start sameText).reals 0).sent, ∃ c st,
        ((run step start sameText).reals 0).dataHandler = some c ∧
          ((run step start sameText).conns c).curStmt = some st ∧ pktout.sender = st.id ∧
          Asks (given 0) st pktout.command := by
  have has : Along step (fun s a => s.Answered a ∧ s.Gives given a) start sameText := by
    decide +kernel
  exact ⟨by decide +kernel, run_asks has 0 (by decide +kernel)⟩

end RealConnectionPool

end Jengine.Dbo
