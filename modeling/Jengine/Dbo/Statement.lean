import Mathlib.Data.List.Basic
import Mathlib.Logic.Function.Basic

/-!
# Statements on a connection to MySQL

`StatementBase`, `Statement` and `PreparedStatement` (`base/dbo_bk/statement.cpp`,
`base/dbo_bk/preparedstatement.cpp`) with the phases of `ResultSet::Parse`
(`base/dbo_bk/resultset.cpp`), over a `RealConnection`
(`base/dbo_bk/internal/realconnection.cpp`).  Every command restarts the sequence id,
and a statement takes the packets whose id is the one it counts to.

Of the payload of a packet there is what decides the phase: the first byte, and the
numbers at the head of the answer to a prepare.
-/

namespace Jengine.Dbo

/-! ### Packets -/

/-- `PACKET_OK`. -/
def packetOk : UInt8 := 0x00

/-- `PACKET_ERR`. -/
def packetErr : UInt8 := 0xFF

/-- `PACKET_EOF`. -/
def packetEof : UInt8 := 0xFE

/-- The commands that are sent. -/
inductive Command where
  | comQuery (sql : String)
  | comStmtPrepare (sql : String)
  | comStmtExecute (statementId : Nat)
deriving DecidableEq

structure PacketOut where
  sequenceId : UInt8
  command : Command
  /-- The statement whose command it is. -/
  sender : Nat
deriving DecidableEq

structure Payload where
  first : UInt8
  statementId : Nat
  numColumns : Nat
  numParams : Nat
deriving DecidableEq

/-- A payload of which only the first byte is looked at. -/
def Payload.plain (first : UInt8) : Payload := ⟨first, 0, 0, 0⟩

structure PacketIn where
  sequenceId : UInt8
  payload : Payload
  /-- The statement whose command it answers. -/
  answers : Nat
deriving DecidableEq

/-! ### `RealConnection` -/

structure PreparedStatementMetadata where
  statementId : Nat
  numColumns : Nat
  numParams : Nat
  /-- How many definitions there are. -/
  paramsDef : Nat
  columnsDef : Nat

structure RealConnection where
  connect : Bool
  closed : Bool
  /-- `data_handler_`, the number of a `Connection`. -/
  dataHandler : Option Nat
  /-- The metadata on the heap. -/
  metadata : Nat → PreparedStatementMetadata
  allocated : Nat
  preparedStmtPool : String → Option Nat
  /-- The commands that the server has not answered. -/
  sent : List PacketOut
  /-- The packets of the server that have not been received. -/
  stream : List PacketIn
  /-- The calls of `HandleResponse`: the statement and the packet. -/
  handed : List (Nat × PacketIn)

namespace RealConnection

/-- After the server has accepted the password. -/
def authorized : RealConnection where
  connect := true
  closed := false
  dataHandler := none
  metadata := fun _ => ⟨0, 0, 0, 0, 0⟩
  allocated := 0
  preparedStmtPool := fun _ => none
  sent := []
  stream := []
  handed := []

/-- `Send`, which drops the packet if there is no connection. -/
def send (r : RealConnection) (pktout : PacketOut) : RealConnection :=
  if r.connect = true then { r with sent := r.sent ++ [pktout] } else r

/-- `new PreparedStatementMetadata`, saved by `SavePreparedStatementCache`. -/
def savePreparedStatementCache (r : RealConnection) (sql : String)
    (pstmt : PreparedStatementMetadata) : RealConnection :=
  { r with
    metadata := Function.update r.metadata r.allocated pstmt
    allocated := r.allocated + 1
    preparedStmtPool := Function.update r.preparedStmtPool sql (some r.allocated) }

/-- One more parameter definition. -/
def addParamDef (r : RealConnection) (m : Nat) : RealConnection :=
  { r with
    metadata := Function.update r.metadata m
      { r.metadata m with paramsDef := (r.metadata m).paramsDef + 1 } }

/-- One more column definition. -/
def addColumnDef (r : RealConnection) (m : Nat) : RealConnection :=
  { r with
    metadata := Function.update r.metadata m
      { r.metadata m with columnsDef := (r.metadata m).columnsDef + 1 } }

/-- Packets can still be received. -/
def isOpen (r : RealConnection) : Bool := r.connect && !r.closed

/-- The server owes no packet of a reply. -/
def Settled (r : RealConnection) : Prop := r.sent = [] ∧ r.stream = []

end RealConnection

/-! ### Result sets -/

/-- `phase_` of a `ResultSet`. -/
inductive ParsePhase where
  | parseNew
  | parseColumnDefinition
  | parseResultsetRow
  | parseFinish
deriving DecidableEq

/-- `ResultSet::Parse`, which returns whether the phase is `parseFinish`. -/
def ParsePhase.parse (phase : ParsePhase) (first : UInt8) : Except String ParsePhase :=
  match phase with
  | .parseNew =>
      if first = packetOk then .ok .parseFinish
      else if first = packetErr then .ok .parseFinish
      -- a request for a local file is not supported
      else if first = 0xFB then .ok .parseFinish
      else .ok .parseColumnDefinition
  | .parseColumnDefinition =>
      if first = packetEof then .ok .parseResultsetRow else .ok .parseColumnDefinition
  | .parseResultsetRow =>
      if first = packetEof ∨ first = packetErr then .ok .parseFinish else .ok .parseResultsetRow
  | .parseFinish =>
      .error "unexpected, may be we receive another resultset, but we do not support yet"

/-! ### Statements -/

inductive StatementPhase where
  | statementNew
  | statementWait
  | statementWaitResponse
  | statementFinish
deriving DecidableEq

inductive PreparePhase where
  | prepareNew
  | prepareWait
  | prepareWaitPrepareResponse
  | prepareWaitPrepareResponseParamDef
  | prepareWaitPrepareResponseColumnDef
  | preparePrepareOk
  | prepareWaitExecResponse
  | prepareFinish
deriving DecidableEq

structure Prepared where
  phase : PreparePhase
  paramsIdx : Nat
  /-- `metadata_pstmt_`, which is not read before it is set. -/
  metadataPstmt : Nat
deriving DecidableEq

inductive Kind where
  | statement (phase : StatementPhase)
  | prepared (p : Prepared)
deriving DecidableEq

structure StatementBase where
  id : Nat
  sql : String
  sequenctId : UInt8
  /-- The phase of `rs_`. -/
  rs : ParsePhase
  kind : Kind
deriving DecidableEq

/-- How a call ends that does not return. -/
inductive Exit where
  | exception (what : String)
  | assertion
deriving DecidableEq

/-- What a call on a statement leaves behind. -/
structure Call where
  real : RealConnection
  stmt : StatementBase
  exit : Option Exit

namespace StatementBase

def isWait (st : StatementBase) : Bool :=
  match st.kind with
  | .statement phase => phase == .statementWait
  | .prepared p => p.phase == .prepareWait

def isFinish (st : StatementBase) : Bool :=
  match st.kind with
  | .statement phase => phase == .statementFinish
  | .prepared p => p.phase == .prepareFinish

def resetSequenceID (st : StatementBase) : StatementBase := { st with sequenctId := 0 }

def fetchSequenceID (st : StatementBase) : UInt8 × StatementBase :=
  (st.sequenctId, { st with sequenctId := st.sequenctId + 1 })

def setPrepared (st : StatementBase) (p : Prepared) : StatementBase :=
  { st with kind := .prepared p }

/-- `HandlePrepareFinish`. -/
def handlePrepareFinish (r : RealConnection) (st : StatementBase) (p : Prepared) : Call :=
  let pstmt := r.metadata p.metadataPstmt
  if pstmt.numColumns ≠ pstmt.columnsDef ∨ pstmt.numParams ≠ pstmt.paramsDef then
    ⟨r, st.setPrepared p, some .assertion⟩
  else if pstmt.numParams ≠ p.paramsIdx then
    ⟨r, st.setPrepared p, some (.exception "dbo: param size missmatch!")⟩
  else
    let fetched := st.resetSequenceID.fetchSequenceID
    ⟨r.send ⟨fetched.1, .comStmtExecute pstmt.statementId, st.id⟩,
      fetched.2.setPrepared { p with phase := .prepareWaitExecResponse }, none⟩

/-- `OnCallRealExecute` of both kinds. -/
def onCallRealExecute (r : RealConnection) (st : StatementBase) : Call :=
  match st.kind with
  | .statement _ =>
      let fetched := st.fetchSequenceID
      ⟨r.send ⟨fetched.1, .comQuery st.sql, st.id⟩,
        { fetched.2 with kind := .statement .statementWaitResponse }, none⟩
  | .prepared p =>
      match r.preparedStmtPool st.sql with
      | none =>
          let fetched := st.fetchSequenceID
          ⟨r.send ⟨fetched.1, .comStmtPrepare st.sql, st.id⟩,
            fetched.2.setPrepared { p with phase := .prepareWaitPrepareResponse }, none⟩
      | some m => handlePrepareFinish r st { p with metadataPstmt := m }

/-- `CallRealExecute`, on a statement whose `Connection` has a `RealConnection`. -/
def callRealExecute (r : RealConnection) (st : StatementBase) : Call :=
  if st.isWait = true then onCallRealExecute r st else ⟨r, st, none⟩

/-- `PreparedStatement::HandleResponse` after the command `COM_STMT_PREPARE`. -/
def handlePrepareResponse (r : RealConnection) (st : StatementBase) (p : Prepared)
    (payload : Payload) : Call :=
  if payload.first = packetOk then
    let pstmt : PreparedStatementMetadata :=
      ⟨payload.statementId, payload.numColumns, payload.numParams, 0, 0⟩
    let r' := r.savePreparedStatementCache st.sql pstmt
    let p' := { p with metadataPstmt := r.allocated }
    if 0 < payload.numParams then
      ⟨r', st.setPrepared { p' with phase := .prepareWaitPrepareResponseParamDef }, none⟩
    else if 0 < payload.numColumns then
      ⟨r', st.setPrepared { p' with phase := .prepareWaitPrepareResponseColumnDef }, none⟩
    else handlePrepareFinish r' st { p' with phase := .preparePrepareOk }
  else if payload.first = packetErr then
    ⟨r, st.setPrepared { p with phase := .prepareFinish }, none⟩
  -- "bad response"
  else ⟨r, st, none⟩

/-- `PreparedStatement::HandleResponse`. -/
def handlePreparedResponse (r : RealConnection) (st : StatementBase) (p : Prepared)
    (payload : Payload) : Call :=
  match p.phase with
  | .prepareWaitPrepareResponse => handlePrepareResponse r st p payload
  | .prepareWaitPrepareResponseParamDef =>
      if payload.first = packetEof then
        if 0 < (r.metadata p.metadataPstmt).numColumns then
          ⟨r, st.setPrepared { p with phase := .prepareWaitPrepareResponseColumnDef }, none⟩
        else handlePrepareFinish r st { p with phase := .preparePrepareOk }
      else ⟨r.addParamDef p.metadataPstmt, st, none⟩
  | .prepareWaitPrepareResponseColumnDef =>
      if payload.first = packetEof then
        handlePrepareFinish r st { p with phase := .preparePrepareOk }
      else ⟨r.addColumnDef p.metadataPstmt, st, none⟩
  | .prepareWaitExecResponse =>
      match st.rs.parse payload.first with
      | .error what => ⟨r, st, some (.exception what)⟩
      | .ok .parseFinish =>
          ⟨r, { st with rs := .parseFinish, kind := .prepared { p with phase := .prepareFinish } },
            none⟩
      | .ok rs => ⟨r, { st with rs := rs }, none⟩
  | .prepareNew | .prepareWait | .preparePrepareOk | .prepareFinish =>
      ⟨r, st, some (.exception "dbo: unexception packet receive")⟩

/-- `HandleResponse` of both kinds. -/
def handleResponse (r : RealConnection) (st : StatementBase) (payload : Payload) : Call :=
  match st.kind with
  | .statement phase =>
      -- "unexpected response"
      if phase ≠ .statementWaitResponse then ⟨r, st, none⟩
      else
        match st.rs.parse payload.first with
        | .error what => ⟨r, st, some (.exception what)⟩
        | .ok .parseFinish =>
            ⟨r, { st with rs := .parseFinish, kind := .statement .statementFinish }, none⟩
        | .ok rs => ⟨r, { st with rs := rs }, none⟩
  | .prepared p => handlePreparedResponse r st p payload

/-- `HandleRawResponse`. -/
def handleRawResponse (r : RealConnection) (st : StatementBase) (pktin : PacketIn) : Call :=
  if st.sequenctId = pktin.sequenceId then
    handleResponse { r with handed := r.handed ++ [(st.id, pktin)] }
      { st with sequenctId := st.sequenctId + 1 } pktin.payload
  else ⟨r, st, none⟩

/-- `Execute`, up to `CallRealExecute`; `none` is the failed assertion of `Statement`. -/
def beginExecute (st : StatementBase) : Option StatementBase :=
  match st.kind with
  | .statement phase =>
      if phase = .statementNew then some { st with kind := .statement .statementWait } else none
  | .prepared p => some (st.setPrepared { p with phase := .prepareWait })

/-- What the setters of a `PreparedStatement` do to `params_idx_`. -/
def setParam (st : StatementBase) : StatementBase :=
  match st.kind with
  | .statement _ => st
  | .prepared p => st.setPrepared { p with paramsIdx := p.paramsIdx + 1 }

/-- The statement has sent a command and has not seen the end of the reply. -/
def waits (st : StatementBase) : Bool :=
  match st.kind with
  | .statement phase => phase == .statementWaitResponse
  | .prepared p =>
      match p.phase with
      | .prepareWaitPrepareResponse | .prepareWaitPrepareResponseParamDef
      | .prepareWaitPrepareResponseColumnDef | .prepareWaitExecResponse => true
      | .prepareNew | .prepareWait | .preparePrepareOk | .prepareFinish => false

end StatementBase

end Jengine.Dbo
