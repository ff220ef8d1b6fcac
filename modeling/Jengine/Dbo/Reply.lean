import Jengine.Dbo.Statement

/-!
# Replies of the server

A server answers a command with a whole reply: OK, an error, a result set, or the
definitions of a prepared statement.  The ids of its packets continue the command's.
`InStep` says that what the server owes is what the statement waits for; a statement
that reads such a reply packet by packet stays in step, and when it has read it to its
end it waits for nothing more.
-/

namespace Jengine.Dbo

/-! ### The server's side -/

/-- The first byte of a definition. -/
abbrev DefByte := { b : UInt8 // b ≠ packetEof }

/-- The first byte of a row. -/
abbrev RowByte := { b : UInt8 // b ≠ packetEof ∧ b ≠ packetErr }

/-- The first byte of a column count; no file is requested, since the client does not
    announce that it can send one. -/
abbrev CountByte := { b : UInt8 // b ≠ packetOk ∧ b ≠ packetErr ∧ b ≠ 0xFB }

/-- The replies of a server, where every packet is shorter than 16 MiB. -/
inductive Reply where
  | ok
  | err
  | resultset (count : CountByte) (columns : List DefByte) (rows : List RowByte) (failed : Bool)
  | prepared (statementId : Nat) (params columns : List DefByte)

/-- Definitions, and the packet that ends them. -/
def definitions (defs : List DefByte) : List Payload :=
  defs.map (fun b => .plain b.1) ++ [.plain packetEof]

theorem definitions_nil : definitions [] = [.plain packetEof] := rfl

theorem definitions_cons (b : DefByte) (defs : List DefByte) :
    definitions (b :: defs) = .plain b.1 :: definitions defs := rfl

theorem plain_first (first : UInt8) : (Payload.plain first).first = first := rfl

/-- Definitions, if there are any. -/
def definitionsIfAny (defs : List DefByte) : List Payload :=
  if defs = [] then [] else definitions defs

/-- Rows, and the packet that ends them. -/
def resultsetRows (rows : List RowByte) (failed : Bool) : List Payload :=
  rows.map (fun b => .plain b.1) ++ [.plain (if failed = true then packetErr else packetEof)]

def Reply.payloads : Reply → List Payload
  | .ok => [.plain packetOk]
  | .err => [.plain packetErr]
  | .resultset count columns rows failed =>
      .plain count.1 :: (definitions columns ++ resultsetRows rows failed)
  | .prepared statementId params columns =>
      ⟨packetOk, statementId, columns.length, params.length⟩ ::
        (definitionsIfAny params ++ definitionsIfAny columns)

/-- The replies a command may get. -/
def Reply.fits : Reply → Command → Bool
  | .ok, .comStmtPrepare _ => false
  | .resultset .., .comStmtPrepare _ => false
  | .prepared .., .comQuery _ => false
  | .prepared .., .comStmtExecute _ => false
  | _, _ => true

/-- The packets of a reply, their ids counted from `id`. -/
def numbered (id : UInt8) (answers : Nat) : List Payload → List PacketIn
  | [] => []
  | payload :: rest => ⟨id, payload, answers⟩ :: numbered (id + 1) answers rest

/-- The server answers the command that it has got first. -/
def RealConnection.serve (r : RealConnection) (reply : Reply) : RealConnection :=
  match r.sent with
  | [] => r
  | pktout :: rest =>
      if reply.fits pktout.command = true then
        { r with
          sent := rest
          stream := r.stream ++ numbered (pktout.sequenceId + 1) pktout.sender reply.payloads }
      else r

/-! ### What a statement waits for -/

/-- `ResultSet::Parse` reads the payloads to their end, and no packet is left then. -/
def ParsePhase.Expects : ParsePhase → List Payload → Prop
  | .parseNew, ps =>
      ps = Reply.ok.payloads ∨ ps = Reply.err.payloads ∨
        ∃ count columns rows failed, ps = (Reply.resultset count columns rows failed).payloads
  | .parseColumnDefinition, ps =>
      ∃ columns rows failed, ps = definitions columns ++ resultsetRows rows failed
  | .parseResultsetRow, ps => ∃ rows failed, ps = resultsetRows rows failed
  -- the result set is not reset when a statement is executed again: every packet throws
  | .parseFinish, _ => True

/-- No result set has been begun, or a whole one has been read. -/
def ParsePhase.AtRest (rs : ParsePhase) : Prop := rs = .parseNew ∨ rs = .parseFinish

/-- The payloads are what a statement waits for. -/
def StatementBase.Expects (r : RealConnection) (st : StatementBase) (ps : List Payload) : Prop :=
  match st.kind with
  | .statement .statementWaitResponse => st.rs.Expects ps
  | .prepared p =>
      match p.phase with
      | .prepareWaitPrepareResponse =>
          st.rs.AtRest ∧ (ps = Reply.err.payloads ∨
            ∃ statementId params columns, ps = (Reply.prepared statementId params columns).payloads)
      | .prepareWaitPrepareResponseParamDef =>
          st.rs.AtRest ∧ ∃ params columns, (r.metadata p.metadataPstmt).numColumns = columns.length ∧
            ps = definitions params ++ definitionsIfAny columns
      | .prepareWaitPrepareResponseColumnDef =>
          st.rs.AtRest ∧ ∃ columns, ps = definitions columns
      | .prepareWaitExecResponse => st.rs.Expects ps
      | _ => False
  | _ => False

/-- What the server owes is what the statement waits for: nothing, the reply to the
    command it has just sent, or the rest of a reply. -/
inductive InStep (r : RealConnection) (st : StatementBase) : Prop where
  | idle (hwaits : st.waits = false) (hrs : st.rs.AtRest) (hsettled : r.Settled)
  | asked (pktout : PacketOut) (hsent : r.sent = [pktout]) (hstream : r.stream = [])
      (hsender : pktout.sender = st.id) (hid : pktout.sequenceId + 1 = st.sequenctId)
      (hfits : ∀ reply : Reply, reply.fits pktout.command = true → st.Expects r reply.payloads)
  | answered (ps : List Payload) (hsent : r.sent = [])
      (hstream : r.stream = numbered st.sequenctId st.id ps) (hps : st.Expects r ps)

theorem StatementBase.Expects.waits {r : RealConnection} {st : StatementBase} {ps : List Payload}
    (h : st.Expects r ps) : st.waits = true := by
  unfold StatementBase.Expects at h
  unfold StatementBase.waits
  split at h
  next hkind => simp [hkind]
  next p hkind =>
    rw [hkind]
    split at h <;> first | contradiction | simp [*]
  · contradiction

theorem StatementBase.waits_of_isFinish {st : StatementBase} (h : st.isFinish = true) :
    st.waits = false := by
  obtain ⟨id, sql, sequenctId, rs, kind⟩ := st
  cases kind with
  | statement phase =>
      obtain rfl : phase = .statementFinish := LawfulBEq.eq_of_beq h
      rfl
  | prepared p =>
      have hphase : p.phase = .prepareFinish := LawfulBEq.eq_of_beq h
      simp only [StatementBase.waits, hphase]

/-- A statement that does not wait owes nothing to the next one. -/
theorem InStep.settled {r : RealConnection} {st : StatementBase} (h : InStep r st)
    (hwaits : st.waits = false) : r.Settled := by
  cases h with
  | idle _ _ hsettled => exact hsettled
  | asked pktout _ _ _ _ hfits =>
      have hst := (hfits .err (by cases pktout.command <;> rfl)).waits
      exact absurd (hwaits.symm.trans hst) (by simp)
  | answered ps _ _ hps => exact absurd (hwaits.symm.trans hps.waits) (by simp)

theorem StatementBase.waits_beginExecute {st st' : StatementBase} (h : st.beginExecute = some st') :
    st'.waits = false ∧ st'.rs = st.rs := by
  obtain ⟨id, sql, sequenctId, rs, kind⟩ := st
  cases kind with
  | statement phase =>
      unfold StatementBase.beginExecute at h
      dsimp only at h
      split at h
      · obtain rfl := Option.some.inj h
        exact ⟨rfl, rfl⟩
      · cases h
  | prepared p =>
      obtain rfl := Option.some.inj h
      exact ⟨rfl, rfl⟩

theorem StatementBase.waits_setParam (st : StatementBase) :
    st.setParam.waits = st.waits ∧ st.setParam.rs = st.rs := by
  obtain ⟨id, sql, sequenctId, rs, kind⟩ := st
  cases kind <;> exact ⟨rfl, rfl⟩

theorem InStep.setParam {r : RealConnection} {st : StatementBase} (h : InStep r st) :
    InStep r st.setParam := by
  obtain ⟨id, sql, sequenctId, rs, kind⟩ := st
  cases kind with
  | statement phase => exact h
  | prepared p =>
      cases h with
      | idle hwaits hrs hsettled => exact .idle hwaits hrs hsettled
      | asked pktout hsent hstream hsender hid hfits =>
          exact .asked pktout hsent hstream hsender hid hfits
      | answered ps hsent hstream hps => exact .answered ps hsent hstream hps

theorem InStep.atRest {r : RealConnection} {st : StatementBase} (h : InStep r st)
    (hsettled : r.Settled) : st.rs.AtRest := by
  cases h with
  | idle _ hrs _ => exact hrs
  | asked pktout hsent _ _ _ _ => exact absurd (hsettled.1.symm.trans hsent) (by simp)
  | answered ps _ hstream hps =>
      cases ps with
      | cons payload ps => exact absurd (hsettled.2.symm.trans hstream) (by simp [numbered])
      | nil =>
          have hrs : st.rs.Expects [] → st.rs.AtRest := by
            intro hrs
            cases hphase : st.rs with
            | parseFinish => exact .inr rfl
            | parseNew => simp [hphase, ParsePhase.Expects, Reply.payloads] at hrs
            | parseColumnDefinition => simp [hphase, ParsePhase.Expects, definitions] at hrs
            | parseResultsetRow => simp [hphase, ParsePhase.Expects, resultsetRows] at hrs
          unfold StatementBase.Expects at hps
          split at hps
          · exact hrs hps
          · split at hps
            · exact hps.1
            · exact hps.1
            · exact hps.1
            · exact hrs hps
            · contradiction
          · contradiction

/-! ### Reading a reply -/

/-- One packet of the reply: the result set is complete and the packet was the last one,
    or it waits for the rest. -/
theorem ParsePhase.Expects.parse {rs : ParsePhase} {payload : Payload} {ps : List Payload}
    (h : rs.Expects (payload :: ps)) :
    rs = .parseFinish ∨ (rs.parse payload.first = .ok .parseFinish ∧ ps = []) ∨
      ∃ rs', rs' ≠ .parseFinish ∧ rs.parse payload.first = .ok rs' ∧ rs'.Expects ps := by
  cases rs with
  | parseFinish => exact .inl rfl
  | parseNew =>
      rcases h with h | h | ⟨count, columns, rows, failed, h⟩
      · obtain ⟨rfl, rfl⟩ := List.cons_eq_cons.1 h
        exact .inr (.inl ⟨rfl, rfl⟩)
      · obtain ⟨rfl, rfl⟩ := List.cons_eq_cons.1 h
        exact .inr (.inl ⟨rfl, rfl⟩)
      · obtain ⟨rfl, rfl⟩ := List.cons_eq_cons.1 h
        refine .inr (.inr ⟨.parseColumnDefinition, nofun, ?_, columns, rows, failed, rfl⟩)
        obtain ⟨hok, herr, hfile⟩ := count.2
        simp [ParsePhase.parse, Payload.plain, hok, herr, hfile]
  | parseColumnDefinition =>
      obtain ⟨columns, rows, failed, h⟩ := h
      cases columns with
      | nil =>
          obtain ⟨rfl, rfl⟩ := List.cons_eq_cons.1 h
          exact .inr (.inr ⟨.parseResultsetRow, nofun, rfl, rows, failed, rfl⟩)
      | cons b columns =>
          obtain ⟨rfl, rfl⟩ := List.cons_eq_cons.1 h
          refine .inr (.inr ⟨.parseColumnDefinition, nofun, ?_, columns, rows, failed, rfl⟩)
          simp [ParsePhase.parse, Payload.plain, b.2]
  | parseResultsetRow =>
      obtain ⟨rows, failed, h⟩ := h
      cases rows with
      | nil =>
          obtain ⟨rfl, rfl⟩ := List.cons_eq_cons.1 h
          refine .inr (.inl ⟨?_, rfl⟩)
          cases failed <;> rfl
      | cons b rows =>
          obtain ⟨rfl, rfl⟩ := List.cons_eq_cons.1 h
          refine .inr (.inr ⟨.parseResultsetRow, nofun, ?_, rows, failed, rfl⟩)
          simp [ParsePhase.parse, Payload.plain, b.2.1, b.2.2]

/-- A result set at rest takes every reply but the one to a prepare. -/
theorem ParsePhase.AtRest.expects {rs : ParsePhase} (h : rs.AtRest) {reply : Reply}
    (hreply : ∀ id params columns, reply ≠ .prepared id params columns) :
    rs.Expects reply.payloads := by
  rcases h with rfl | rfl
  · cases reply with
    | ok => exact .inl rfl
    | err => exact .inr (.inl rfl)
    | resultset count columns rows failed =>
        exact .inr (.inr ⟨count, columns, rows, failed, rfl⟩)
    | prepared id params columns => exact absurd rfl (hreply id params columns)
  · trivial

/-! ### What a call keeps -/

/-- A call may send a command and change the metadata. -/
structure Call.Keeps (r : RealConnection) (st : StatementBase) (call : Call) : Prop where
  connect : call.real.connect = r.connect
  closed : call.real.closed = r.closed
  dataHandler : call.real.dataHandler = r.dataHandler
  handed : call.real.handed = r.handed
  id : call.stmt.id = st.id

namespace StatementBase

theorem keeps_send {r : RealConnection} {st st' : StatementBase} (pktout : PacketOut)
    (exit : Option Exit) (hid : st'.id = st.id) : Call.Keeps r st ⟨r.send pktout, st', exit⟩ := by
  unfold RealConnection.send
  constructor <;> first | exact hid | (dsimp only; split <;> rfl)

theorem handlePrepareFinish_keeps (r : RealConnection) (st : StatementBase) (p : Prepared) :
    (handlePrepareFinish r st p).Keeps r st := by
  unfold handlePrepareFinish
  dsimp only
  split
  · exact ⟨rfl, rfl, rfl, rfl, rfl⟩
  split
  · exact ⟨rfl, rfl, rfl, rfl, rfl⟩
  · exact keeps_send _ _ rfl

theorem callRealExecute_keeps (r : RealConnection) (st : StatementBase) :
    (callRealExecute r st).Keeps r st := by
  unfold callRealExecute onCallRealExecute
  split
  · cases st.kind with
    | statement phase => exact keeps_send _ _ rfl
    | prepared p =>
        dsimp only
        split
        · exact keeps_send _ _ rfl
        · exact handlePrepareFinish_keeps r st _
  · exact ⟨rfl, rfl, rfl, rfl, rfl⟩

theorem handlePrepareResponse_keeps (r : RealConnection) (st : StatementBase) (p : Prepared)
    (payload : Payload) : (handlePrepareResponse r st p payload).Keeps r st := by
  unfold handlePrepareResponse
  dsimp only
  split
  · split
    · exact ⟨rfl, rfl, rfl, rfl, rfl⟩
    split
    · exact ⟨rfl, rfl, rfl, rfl, rfl⟩
    · obtain ⟨h1, h2, h3, h4, h5⟩ := handlePrepareFinish_keeps (r.savePreparedStatementCache st.sql
        ⟨payload.statementId, payload.numColumns, payload.numParams, 0, 0⟩) st
        { p with metadataPstmt := r.allocated, phase := .preparePrepareOk }
      exact ⟨h1, h2, h3, h4, h5⟩
  split
  · exact ⟨rfl, rfl, rfl, rfl, rfl⟩
  · exact ⟨rfl, rfl, rfl, rfl, rfl⟩

theorem handleResponse_keeps (r : RealConnection) (st : StatementBase) (payload : Payload) :
    (handleResponse r st payload).Keeps r st := by
  unfold handleResponse
  cases st.kind with
  | statement phase =>
      dsimp only
      split
      · exact ⟨rfl, rfl, rfl, rfl, rfl⟩
      split <;> exact ⟨rfl, rfl, rfl, rfl, rfl⟩
  | prepared p =>
      dsimp only [handlePreparedResponse]
      cases p.phase with
      | prepareWaitPrepareResponse => exact handlePrepareResponse_keeps r st p payload
      | prepareWaitPrepareResponseParamDef =>
          dsimp only
          split
          · split
            · exact ⟨rfl, rfl, rfl, rfl, rfl⟩
            · exact handlePrepareFinish_keeps r st _
          · exact ⟨rfl, rfl, rfl, rfl, rfl⟩
      | prepareWaitPrepareResponseColumnDef =>
          dsimp only
          split
          · exact handlePrepareFinish_keeps r st _
          · exact ⟨rfl, rfl, rfl, rfl, rfl⟩
      | prepareWaitExecResponse =>
          dsimp only
          split <;> exact ⟨rfl, rfl, rfl, rfl, rfl⟩
      | prepareNew | prepareWait | preparePrepareOk | prepareFinish =>
          exact ⟨rfl, rfl, rfl, rfl, rfl⟩

/-! ### Statement and server in step -/

/-- A command that is sent when the server owes nothing. -/
theorem inStep_send {r : RealConnection} {st : StatementBase} {pktout : PacketOut}
    (hconnect : r.connect = true) (hsettled : r.Settled) (hsender : pktout.sender = st.id)
    (hid : pktout.sequenceId + 1 = st.sequenctId)
    (hfits : ∀ reply : Reply, reply.fits pktout.command = true →
      st.Expects (r.send pktout) reply.payloads) :
    InStep (r.send pktout) st := by
  refine .asked pktout ?_ ?_ hsender hid hfits
  · simp [RealConnection.send, hconnect, hsettled.1]
  · simp [RealConnection.send, hconnect, hsettled.2]

theorem handlePrepareFinish_inStep {r : RealConnection} {st : StatementBase} {p : Prepared}
    (hconnect : r.connect = true) (hsettled : r.Settled) (hrs : st.rs.AtRest)
    (hwaits : (st.setPrepared p).waits = false) :
    InStep (handlePrepareFinish r st p).real (handlePrepareFinish r st p).stmt := by
  unfold handlePrepareFinish
  dsimp only
  split
  · exact .idle hwaits hrs hsettled
  split
  · exact .idle hwaits hrs hsettled
  · refine inStep_send hconnect hsettled rfl rfl ?_
    intro reply hreply
    refine hrs.expects ?_
    rintro id params columns rfl
    cases hreply

theorem callRealExecute_inStep {r : RealConnection} {st : StatementBase}
    (hconnect : r.connect = true) (hsettled : r.Settled) (hrs : st.rs.AtRest)
    (hwaits : st.waits = false) :
    InStep (callRealExecute r st).real (callRealExecute r st).stmt := by
  unfold callRealExecute onCallRealExecute
  split
  case isFalse => exact .idle hwaits hrs hsettled
  case isTrue hwait =>
    split
    next phase hkind =>
      refine inStep_send hconnect hsettled rfl rfl ?_
      intro reply hreply
      refine hrs.expects ?_
      rintro id params columns rfl
      cases hreply
    next p hkind =>
      split
      · refine inStep_send hconnect hsettled rfl rfl ?_
        intro reply hreply
        refine ⟨hrs, ?_⟩
        cases reply with
        | err => exact .inl rfl
        | prepared id params columns => exact .inr ⟨id, params, columns, rfl⟩
        | ok => cases hreply
        | resultset count columns rows failed => cases hreply
      · refine handlePrepareFinish_inStep hconnect hsettled hrs ?_
        simpa [waits, setPrepared, hkind] using hwaits

theorem handlePrepareResponse_inStep {r : RealConnection} {st : StatementBase} {p : Prepared}
    {payload : Payload} {ps : List Payload} (hconnect : r.connect = true) (hsent : r.sent = [])
    (hstream : r.stream = numbered st.sequenctId st.id ps) (hkind : st.kind = .prepared p)
    (hphase : p.phase = .prepareWaitPrepareResponse) (hps : st.Expects r (payload :: ps)) :
    InStep (handlePrepareResponse r st p payload).real
      (handlePrepareResponse r st p payload).stmt := by
  simp only [Expects, hkind, hphase] at hps
  obtain ⟨hrs, h | ⟨id, params, columns, h⟩⟩ := hps
  · obtain ⟨rfl, rfl⟩ := List.cons_eq_cons.1 h
    exact .idle rfl hrs ⟨hsent, hstream⟩
  · obtain ⟨rfl, rfl⟩ := List.cons_eq_cons.1 h
    unfold handlePrepareResponse
    rw [if_pos rfl]
    dsimp only
    cases params with
    | cons b params =>
        rw [if_pos (by simp)]
        refine .answered _ hsent hstream ?_
        refine ⟨hrs, b :: params, columns, ?_, rfl⟩
        simp [RealConnection.savePreparedStatementCache]
    | nil =>
        rw [if_neg (by simp)]
        cases columns with
        | cons b columns =>
            rw [if_pos (by simp)]
            exact .answered _ hsent hstream ⟨hrs, b :: columns, rfl⟩
        | nil =>
            rw [if_neg (by simp)]
            exact handlePrepareFinish_inStep hconnect ⟨hsent, hstream⟩ hrs rfl

/-- One packet of the definitions of the parameters. -/
theorem handleParamDef_inStep {r : RealConnection} {st : StatementBase} {p : Prepared}
    {payload : Payload} {ps : List Payload} (hconnect : r.connect = true) (hsent : r.sent = [])
    (hstream : r.stream = numbered st.sequenctId st.id ps) (hkind : st.kind = .prepared p)
    (hphase : p.phase = .prepareWaitPrepareResponseParamDef)
    (hps : st.Expects r (payload :: ps)) :
    InStep (handlePreparedResponse r st p payload).real
      (handlePreparedResponse r st p payload).stmt := by
  simp only [Expects, hkind, hphase] at hps
  obtain ⟨hrs, params, columns, hcolumns, h⟩ := hps
  unfold handlePreparedResponse
  rw [hphase]
  dsimp only
  cases params with
  | cons b params =>
      rw [definitions_cons, List.cons_append] at h
      obtain ⟨rfl, rfl⟩ := List.cons_eq_cons.1 h
      rw [plain_first, if_neg b.2]
      refine .answered _ hsent hstream ?_
      simp only [Expects, hkind, hphase]
      refine ⟨hrs, params, columns, ?_, rfl⟩
      simpa [RealConnection.addParamDef] using hcolumns
  | nil =>
      rw [definitions_nil, List.singleton_append] at h
      obtain ⟨rfl, rfl⟩ := List.cons_eq_cons.1 h
      rw [plain_first, if_pos rfl, hcolumns]
      cases columns with
      | cons b columns =>
          rw [if_pos (by simp)]
          exact .answered _ hsent hstream ⟨hrs, b :: columns, rfl⟩
      | nil =>
          rw [if_neg (by simp)]
          exact handlePrepareFinish_inStep hconnect ⟨hsent, hstream⟩ hrs rfl

/-- One packet of the definitions of the columns. -/
theorem handleColumnDef_inStep {r : RealConnection} {st : StatementBase} {p : Prepared}
    {payload : Payload} {ps : List Payload} (hconnect : r.connect = true) (hsent : r.sent = [])
    (hstream : r.stream = numbered st.sequenctId st.id ps) (hkind : st.kind = .prepared p)
    (hphase : p.phase = .prepareWaitPrepareResponseColumnDef)
    (hps : st.Expects r (payload :: ps)) :
    InStep (handlePreparedResponse r st p payload).real
      (handlePreparedResponse r st p payload).stmt := by
  simp only [Expects, hkind, hphase] at hps
  obtain ⟨hrs, columns, h⟩ := hps
  unfold handlePreparedResponse
  rw [hphase]
  dsimp only
  cases columns with
  | cons b columns =>
      rw [definitions_cons] at h
      obtain ⟨rfl, rfl⟩ := List.cons_eq_cons.1 h
      rw [plain_first, if_neg b.2]
      refine .answered _ hsent hstream ?_
      simp only [Expects, hkind, hphase]
      exact ⟨hrs, columns, rfl⟩
  | nil =>
      rw [definitions_nil] at h
      obtain ⟨rfl, rfl⟩ := List.cons_eq_cons.1 h
      rw [plain_first, if_pos rfl]
      exact handlePrepareFinish_inStep hconnect ⟨hsent, hstream⟩ hrs rfl

/-- One packet of a result set, for a statement of either kind; `done` is what becomes of
    the statement with the last packet. -/
theorem inStep_parse {r : RealConnection} {st done : StatementBase} {payload : Payload}
    {ps : List Payload} (hsent : r.sent = [])
    (hstream : r.stream = numbered st.sequenctId st.id ps) (hps : st.rs.Expects (payload :: ps))
    (hexpects : ∀ rs qs, ({ st with rs := rs } : StatementBase).Expects r qs ↔ rs.Expects qs)
    (hdone : done.waits = false ∧ done.rs = .parseFinish) :
    let call : Call := match st.rs.parse payload.first with
      | .error what => ⟨r, st, some (.exception what)⟩
      | .ok .parseFinish => ⟨r, done, none⟩
      | .ok rs => ⟨r, { st with rs := rs }, none⟩
    InStep call.real call.stmt := by
  intro call
  rcases hps.parse with hrs | ⟨hparse, rfl⟩ | ⟨rs, hrs, hparse, hrest⟩
  · have hcall : call = ⟨r, st, some (.exception
        "unexpected, may be we receive another resultset, but we do not support yet")⟩ := by
      simp only [call, hrs, ParsePhase.parse]
    rw [hcall]
    refine .answered ps hsent hstream ?_
    exact (hexpects st.rs ps).2 (by rw [hrs]; trivial)
  · have hcall : call = ⟨r, done, none⟩ := by simp only [call, hparse]
    rw [hcall]
    exact .idle hdone.1 (.inr hdone.2) ⟨hsent, hstream⟩
  · have hcall : call = ⟨r, { st with rs := rs }, none⟩ := by
      cases rs with
      | parseFinish => exact absurd rfl hrs
      | parseNew | parseColumnDefinition | parseResultsetRow => simp only [call, hparse]
    rw [hcall]
    exact .answered ps hsent hstream ((hexpects rs ps).2 hrest)

/-- A statement that gets the next packet of the reply it waits for stays in step. -/
theorem handleResponse_inStep {r : RealConnection} {st : StatementBase} {payload : Payload}
    {ps : List Payload} (hconnect : r.connect = true) (hsent : r.sent = [])
    (hstream : r.stream = numbered st.sequenctId st.id ps) (hps : st.Expects r (payload :: ps)) :
    InStep (handleResponse r st payload).real (handleResponse r st payload).stmt := by
  unfold handleResponse
  split
  next phase hkind =>
    have hphase : phase = .statementWaitResponse := by
      cases phase <;> simp_all [Expects]
    subst hphase
    rw [if_neg (by simp)]
    have hexpects : ∀ rs qs,
        ({ st with rs := rs } : StatementBase).Expects r qs ↔ rs.Expects qs := by
      intro rs qs
      simp [Expects, hkind]
    exact inStep_parse hsent hstream ((hexpects st.rs _).1 hps) hexpects ⟨rfl, rfl⟩
  next p hkind =>
    cases hphase : p.phase with
    | prepareWaitPrepareResponse =>
        simp only [handlePreparedResponse, hphase]
        exact handlePrepareResponse_inStep hconnect hsent hstream hkind hphase hps
    | prepareWaitPrepareResponseParamDef =>
        exact handleParamDef_inStep hconnect hsent hstream hkind hphase hps
    | prepareWaitPrepareResponseColumnDef =>
        exact handleColumnDef_inStep hconnect hsent hstream hkind hphase hps
    | prepareWaitExecResponse =>
        have hexpects : ∀ rs qs,
            ({ st with rs := rs } : StatementBase).Expects r qs ↔ rs.Expects qs := by
          intro rs qs
          simp [Expects, hkind, hphase]
        simp only [handlePreparedResponse, hphase]
        exact inStep_parse hsent hstream ((hexpects st.rs _).1 hps) hexpects ⟨rfl, rfl⟩
    | prepareNew | prepareWait | preparePrepareOk | prepareFinish =>
        simp [Expects, hkind, hphase] at hps

/-- The next packet is for the statement that is in step, and leaves it in step. -/
theorem handleRawResponse_inStep {r : RealConnection} {st : StatementBase} {pktin : PacketIn}
    {rest : List PacketIn} (h : InStep r st) (hconnect : r.connect = true)
    (hnext : r.stream = pktin :: rest) :
    pktin.answers = st.id ∧
      InStep (handleRawResponse { r with stream := rest } st pktin).real
        (handleRawResponse { r with stream := rest } st pktin).stmt := by
  cases h with
  | idle hwaits hrs hsettled => exact absurd (hsettled.2.symm.trans hnext) (by simp)
  | asked pktout hsent hstream hsender hid hfits =>
      exact absurd (hstream.symm.trans hnext) (by simp)
  | answered ps hsent hstream hps =>
      cases ps with
      | nil => exact absurd (hstream.symm.trans hnext) (by simp [numbered])
      | cons payload ps =>
          obtain ⟨rfl, rfl⟩ := List.cons_eq_cons.1 (hnext.symm.trans hstream)
          refine ⟨rfl, ?_⟩
          unfold handleRawResponse
          rw [if_pos rfl]
          exact handleResponse_inStep hconnect hsent rfl hps

theorem handleRawResponse_keeps (r : RealConnection) (st : StatementBase) (pktin : PacketIn) :
    let call := handleRawResponse r st pktin
    call.real.connect = r.connect ∧ call.real.closed = r.closed ∧
      call.real.dataHandler = r.dataHandler ∧ call.stmt.id = st.id ∧
      ∀ e ∈ call.real.handed, e ∈ r.handed ∨ e = (st.id, pktin) := by
  intro call
  by_cases hid : st.sequenctId = pktin.sequenceId
  · have hcall : call = handleResponse { r with handed := r.handed ++ [(st.id, pktin)] }
        { st with sequenctId := st.sequenctId + 1 } pktin.payload := if_pos hid
    obtain ⟨hconnect, hclosed, hhandler, hhanded, hst⟩ :=
      handleResponse_keeps { r with handed := r.handed ++ [(st.id, pktin)] }
        { st with sequenctId := st.sequenctId + 1 } pktin.payload
    rw [hcall]
    refine ⟨hconnect, hclosed, hhandler, hst, ?_⟩
    rw [hhanded]
    intro e he
    simpa using he
  · have hcall : call = ⟨r, st, none⟩ := if_neg hid
    rw [hcall]
    exact ⟨rfl, rfl, rfl, rfl, fun e he => .inl he⟩

end StatementBase

namespace RealConnection

theorem serve_inStep {r : RealConnection} {st : StatementBase} (h : InStep r st) (reply : Reply) :
    InStep (r.serve reply) st := by
  cases h with
  | idle hwaits hrs hsettled =>
      have hserve : r.serve reply = r := by simp [serve, hsettled.1]
      rw [hserve]
      exact .idle hwaits hrs hsettled
  | asked pktout hsent hstream hsender hid hfits =>
      by_cases hreply : reply.fits pktout.command = true
      · have hserve : r.serve reply = { r with
            sent := []
            stream := numbered (pktout.sequenceId + 1) pktout.sender reply.payloads } := by
          simp [serve, hsent, hreply, hstream]
        rw [hserve, hid, hsender]
        exact .answered reply.payloads rfl rfl (hfits reply hreply)
      · have hserve : r.serve reply = r := by simp [serve, hsent, hreply]
        rw [hserve]
        exact .asked pktout hsent hstream hsender hid hfits
  | answered ps hsent hstream hps =>
      have hserve : r.serve reply = r := by simp [serve, hsent]
      rw [hserve]
      exact .answered ps hsent hstream hps

end RealConnection

end Jengine.Dbo
