import Jengine.Dbo.RowReader
import Jengine.Dbo.Statement
import Jengine.Lib.Lines

/-!
# Result sets

`ResultSet::Parse` (`base/dbo_bk/resultset.cpp`) with `ColumnDefinition::Parse`
(`base/dbo_bk/metadata.cpp`).  `Parse` is called with one packet after the other, whose cursor
stands behind the head, and the phase says what the first byte of the packet means.  Both read
into members of an object, and what a call has read before it throws stays there.
-/

namespace Jengine.Dbo.Internal

open Jengine.Lib Jengine.Memory RefMemoryChunk

namespace PacketIn

/-- An operation on a packet and on the object whose members are read. -/
abbrev Into (σ : Type) := ExceptT Fault (StateM (σ × PacketIn))

/-- An operation on the packet. -/
def onPacket {σ α : Type} (op : Op α) : Into σ α := fun (x, s) =>
  let (a, s') := op s
  (a, x, s')

/-- An assignment to members of the object. -/
def assign {σ : Type} (f : σ → σ) : Into σ Unit := fun (x, s) => (.ok (), f x, s)

/-- Read into a member. -/
def into {σ α : Type} (op : Op α) (f : α → σ → σ) : Into σ Unit := do
  let a ← onPacket op
  assign (f a)

end PacketIn

/-! ### Column definitions -/

/-- A new `ColumnDefinition`. -/
def ColumnDefinition.make : ColumnDefinition :=
  ⟨[], [], [], [], [], [], 0, 0, 0, .decimal, 0, 0, 0⟩

/-- `ColumnDefinition::Parse`; `un` is what the variables of its seven calls of
    `ReadVariableInteger` hold. -/
def ColumnDefinition.parse (m : Bytes) (un : Nat → Locals) :
    PacketIn.Into ColumnDefinition Unit := do
  PacketIn.into (PacketIn.readLengthEncodedString m (un 0) []) fun v cm => { cm with catalog := v }
  PacketIn.into (PacketIn.readLengthEncodedString m (un 1) []) fun v cm => { cm with schema := v }
  PacketIn.into (PacketIn.readLengthEncodedString m (un 2) []) fun v cm => { cm with table := v }
  PacketIn.into (PacketIn.readLengthEncodedString m (un 3) []) fun v cm => { cm with orgTable := v }
  PacketIn.into (PacketIn.readLengthEncodedString m (un 4) []) fun v cm => { cm with name := v }
  PacketIn.into (PacketIn.readLengthEncodedString m (un 5) []) fun v cm => { cm with orgName := v }
  PacketIn.into (PacketIn.readVariableInteger m 16 (un 6)) fun v cm =>
    { cm with fixedLength := .ofNat v }
  PacketIn.into (PacketIn.readFixedInteger m 2 0) fun v cm => { cm with charset := .ofNat v }
  PacketIn.into (PacketIn.readFixedInteger m 4 0) fun v cm => { cm with columnLength := .ofNat v }
  PacketIn.into (PacketIn.readFixedInteger m 1 0) fun v cm => { cm with type := .ofCode (.ofNat v) }
  PacketIn.into (PacketIn.readFixedInteger m 2 0) fun v cm => { cm with flag := .ofNat v }
  PacketIn.into (PacketIn.readFixedInteger m 1 0) fun v cm => { cm with decimals := .ofNat v }
  PacketIn.into (PacketIn.readFixedInteger m 2 0) fun v cm => { cm with filter := .ofNat v }

/-! ### Row readers -/

/-- `ProtocolType`. -/
inductive ProtocolType where
  | text
  | binary
deriving DecidableEq, Repr

/-- `RowReader`. -/
inductive RowReader where
  | text (r : RowReaderText)
  | binary (r : RowReaderBinary)
  /-- A reader whose `ParseRowPacket` has thrown. -/
  | broken
deriving DecidableEq, Repr

/-- `ParseRowPacket` of a new reader. -/
def RowReader.parseRowPacket (m : Bytes) (fl : Floats) (un : Uninit) (protocol : ProtocolType)
    (md : ResultSetMetadata) (data : PacketIn) : Except Fault RowReader :=
  match protocol with
  | .text => (RowReaderText.parseRowPacket m fl md un data).map .text
  | .binary => (RowReaderBinary.parseRowPacket m md un data).map .binary

/-! ### Result sets -/

/-- `ResultSet`. -/
structure ResultSet where
  errorCode : UInt16
  errorMessage : List UInt8
  affectedRows : UInt64
  lastInsertId : UInt64
  statusFlag : UInt16
  warnings : UInt16
  info : List UInt8
  metadata : ResultSetMetadata
  phase : ParsePhase
  rowReaders : List RowReader
deriving DecidableEq

namespace ResultSet

open Jengine.Dbo.Internal.PacketIn (Into onPacket assign into)

/-- The constructor. -/
def make : ResultSet := ⟨0, [], 0, 0, 0, 0, [], ⟨[], 0⟩, .parseNew, []⟩

/-- `HasError`. -/
def hasError (rs : ResultSet) : Bool := 0 < rs.errorCode

/-- `metadata_.columns.reserve(metadata_.num_columns)`, with memory for `room` definitions. -/
def reserveColumns (room : Nat) : Into ResultSet Unit := fun (rs, s) =>
  if rs.metadata.numColumns ≤ room then (.ok (), rs, s) else (.error .badAlloc, rs, s)

/-- The first packet. -/
def parseNew (m : Bytes) (un : Uninit) (room : Nat) : Into ResultSet Unit := do
  let first ← onPacket (PacketIn.readFixedInteger m 1 0)
  if first = packetOk.toNat then
    into (PacketIn.readVariableInteger m 64 (un.locals 0)) fun v rs =>
      { rs with affectedRows := .ofNat v }
    into (PacketIn.readVariableInteger m 64 (un.locals 1)) fun v rs =>
      { rs with lastInsertId := .ofNat v }
    into (PacketIn.readFixedInteger m 2 0) fun v rs => { rs with statusFlag := .ofNat v }
    into (PacketIn.readFixedInteger m 2 0) fun v rs => { rs with warnings := .ofNat v }
    into (PacketIn.readRestOfPacketString m []) fun v rs => { rs with info := v }
    assign fun rs => { rs with phase := .parseFinish }
  else if first = packetErr.toNat then
    into (PacketIn.readFixedInteger m 2 0) fun v rs => { rs with errorCode := .ofNat v }
    into (PacketIn.readRestOfPacketString m []) fun v rs => { rs with errorMessage := v }
    assign fun rs => { rs with phase := .parseFinish }
  else if first = 0xFB then
    assign fun rs => { rs with
      errorCode := 1, errorMessage := ascii "not support 0xFB", phase := .parseFinish }
  else
    onPacket (PacketIn.skip (2 ^ 32 - 1))
    into (PacketIn.readVariableInteger m 32 (un.locals 0)) fun v rs =>
      { rs with metadata := { rs.metadata with numColumns := v } }
    reserveColumns room
    assign fun rs => { rs with phase := .parseColumnDefinition }

/-- `emplace_back` and `Parse` of the new definition. -/
def pushColumn (m : Bytes) (un : Uninit) : Into ResultSet Unit := fun (rs, s) =>
  let (r, cm, s') := ColumnDefinition.parse m un.locals (.make, s)
  (r, { rs with metadata := { rs.metadata with columns := rs.metadata.columns ++ [cm] } }, s')

/-- A packet behind the number of columns. -/
def parseColumnDefinition (m : Bytes) (un : Uninit) : Into ResultSet Unit := do
  let first ← onPacket (PacketIn.readFixedInteger m 1 0)
  if first = packetEof.toNat then
    assign fun rs => { rs with phase := .parseResultsetRow }
  else
    onPacket (PacketIn.skip (2 ^ 32 - 1))
    pushColumn m un

/-- A new reader and its `ParseRowPacket`, which takes the packet. -/
def pushRow (m : Bytes) (fl : Floats) (un : Uninit) (protocol : ProtocolType) :
    Into ResultSet Unit := fun (rs, s) =>
  match RowReader.parseRowPacket m fl un protocol rs.metadata s with
  | .ok r => (.ok (), { rs with rowReaders := rs.rowReaders ++ [r] }, ⟨.empty, s.asked⟩)
  | .error e =>
      (.error e, { rs with rowReaders := rs.rowReaders ++ [.broken] }, ⟨.empty, s.asked⟩)

/-- A packet behind the definitions. -/
def parseResultsetRow (m : Bytes) (fl : Floats) (un : Uninit) (protocol : ProtocolType) :
    Into ResultSet Unit := do
  let first ← onPacket (PacketIn.readFixedInteger m 1 0)
  if first = packetEof.toNat ∨ first = packetErr.toNat then
    assign fun rs => { rs with phase := .parseFinish }
  else
    pushRow m fl un protocol

/-- The switch of `Parse`. -/
def parsePhase (m : Bytes) (fl : Floats) (un : Uninit) (room : Nat) (protocol : ProtocolType)
    (phase : ParsePhase) : Into ResultSet Unit :=
  match phase with
  | .parseNew => parseNew m un room
  | .parseColumnDefinition => parseColumnDefinition m un
  | .parseResultsetRow => parseResultsetRow m fl un protocol
  | .parseFinish => throw (.exception
      "unexpected, may be we receive another resultset, but we do not support yet")

/-- `Parse`; there is memory for `room` column definitions. -/
def parse (m : Bytes) (fl : Floats) (un : Uninit) (room : Nat) (protocol : ProtocolType) :
    Into ResultSet Bool := do
  let st ← get
  parsePhase m fl un room protocol st.1.phase
  let st ← get
  return decide (st.1.phase = .parseFinish)

end ResultSet

end Jengine.Dbo.Internal
