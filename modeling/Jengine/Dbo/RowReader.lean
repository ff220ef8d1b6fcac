import Mathlib.Algebra.Ring.Nat
import Jengine.Dbo.VariableInteger
import Jengine.Lib.Decimal

/-!
# Row readers

`ColumnDefinition` and `ResultSetMetadata` (`base/dbo_bk/metadata.h`), and the two readers of a
row (`base/dbo_bk/internal/rowreadertext.cpp`, `rowreaderbinary.cpp`).  Both take the bytes of a
row packet and place each field into a union of eight bytes, of which a type uses as many as it
has; the bytes of a string stay in the packet, and the union holds where they are.

What the union and the local variables of the packet hold before they are written to is a
parameter, and so are `strtof` and `strtod`.
-/

namespace Jengine.Dbo.Internal

open Jengine.Lib Jengine.Memory RefMemoryChunk

/-- `MysqlFieldType`; a byte from the packet is stored unchecked. -/
inductive MysqlFieldType where
  | decimal | tiny | short | long | float | double | null | timestamp | longlong | int24 | date
  | time | datetime | year | newdate | varchar | bit | newdecimal | enum | set | tinyBlob
  | mediumBlob | longBlob | blob | varString | string | geometry
  | unnamed (code : UInt8)
deriving DecidableEq, Repr

/-- The type with a number. -/
def MysqlFieldType.ofCode (code : UInt8) : MysqlFieldType :=
  match code.toNat with
  | 0 => .decimal | 1 => .tiny | 2 => .short | 3 => .long | 4 => .float | 5 => .double
  | 6 => .null | 7 => .timestamp | 8 => .longlong | 9 => .int24 | 10 => .date | 11 => .time
  | 12 => .datetime | 13 => .year | 14 => .newdate | 15 => .varchar | 16 => .bit
  | 246 => .newdecimal | 247 => .enum | 248 => .set | 249 => .tinyBlob | 250 => .mediumBlob
  | 251 => .longBlob | 252 => .blob | 253 => .varString | 254 => .string | 255 => .geometry
  | _ => .unnamed code

/-- The number of a type. -/
def MysqlFieldType.code : MysqlFieldType → UInt8
  | .decimal => 0 | .tiny => 1 | .short => 2 | .long => 3 | .float => 4 | .double => 5
  | .null => 6 | .timestamp => 7 | .longlong => 8 | .int24 => 9 | .date => 10 | .time => 11
  | .datetime => 12 | .year => 13 | .newdate => 14 | .varchar => 15 | .bit => 16
  | .newdecimal => 246 | .enum => 247 | .set => 248 | .tinyBlob => 249 | .mediumBlob => 250
  | .longBlob => 251 | .blob => 252 | .varString => 253 | .string => 254 | .geometry => 255
  | .unnamed code => code

/-- `ColumnDefinition`. -/
structure ColumnDefinition where
  catalog : List UInt8
  schema : List UInt8
  table : List UInt8
  orgTable : List UInt8
  name : List UInt8
  orgName : List UInt8
  fixedLength : UInt16
  charset : UInt16
  columnLength : UInt32
  type : MysqlFieldType
  flag : UInt16
  decimals : UInt8
  filter : UInt16
deriving DecidableEq, Repr

/-- `IsUnsigned`: `MYSQL_COLUMN_FLAG_UNSIGNED` is 32. -/
def ColumnDefinition.isUnsigned (cm : ColumnDefinition) : Bool := cm.flag &&& 32 != 0

/-- `ResultSetMetadata`. -/
structure ResultSetMetadata where
  columns : List ColumnDefinition
  numColumns : Nat
deriving DecidableEq, Repr

/-- `GetColumnDefinition`: an index into a vector. -/
def ResultSetMetadata.getColumnDefinition (md : ResultSetMetadata) (idx : Nat) :
    Except Fault ColumnDefinition :=
  match md.columns[idx]? with
  | some cm => .ok cm
  | none => .error .outOfRange

/-- `FieldValue`: the eight bytes of the union, as a number. -/
abbrev FieldValue := Nat

namespace FieldValue

/-- Assign to a member of `n` bytes; the other bytes of the union stay. -/
def store (old : FieldValue) (n : Nat) (v : Int) : FieldValue :=
  overwritten old (toLE n (v % 256 ^ n).toNat)

def int8 (v : FieldValue) : Int8 := .ofBitVec (.ofNat 8 v)
def uint8 (v : FieldValue) : UInt8 := .ofNat v
def int16 (v : FieldValue) : Int16 := .ofBitVec (.ofNat 16 v)
def uint16 (v : FieldValue) : UInt16 := .ofNat v
def int32 (v : FieldValue) : Int32 := .ofBitVec (.ofNat 32 v)
def uint32 (v : FieldValue) : UInt32 := .ofNat v
def int64 (v : FieldValue) : Int64 := .ofBitVec (.ofNat 64 v)
def uint64 (v : FieldValue) : UInt64 := .ofNat v
def bufferPos (v : FieldValue) : Nat := v % 2 ^ 32

end FieldValue

/-- `strtof` and `strtod`, as the bytes of their results. -/
structure Floats where
  strtof : List UInt8 → Nat
  strtod : List UInt8 → Nat

/-- What memory holds before it is written to: the locals of each call of `ReadVariableInteger`,
    and the unions, both by column. -/
structure Uninit where
  locals : Nat → Locals
  values : Nat → FieldValue

/-- A check of a row reader or a packet, in the monad of the packet. -/
def orThrow {α : Type} (x : Except Fault α) : PacketIn.Op α := fun s => (x, s)

/-! ### Text -/

namespace RowReaderText

/-- `Field`. -/
structure Field where
  isNull : Bool
  value : FieldValue
deriving DecidableEq, Repr

/-- One column of the loop of `ParseRowPacket`; `buffer` is the string the texts of numbers are
    read into. -/
def parseColumn (m : Bytes) (fl : Floats) (md : ResultSetMetadata) (un : Uninit) (column : Nat)
    (buffer : List UInt8) : PacketIn.Op (Field × List UInt8) := do
  let s ← get
  let bufferPos := s.packet.pos
  let flag ← PacketIn.currentByte m
  if flag = 0xFB then
    PacketIn.skip 1
    return (⟨true, un.values column⟩, buffer)
  else
    let len ← PacketIn.readVariableInteger m 32 (un.locals column)
    let cm ← orThrow (md.getColumnDefinition column)
    match cm.type with
    | .tiny | .short | .long | .year =>
        let buffer ← PacketIn.readFixedString m buffer len
        return (⟨false, FieldValue.store (un.values column) 4 (strtoll buffer)⟩, buffer)
    | .longlong =>
        let buffer ← PacketIn.readFixedString m buffer len
        return (⟨false, FieldValue.store (un.values column) 8 (strtoll buffer)⟩, buffer)
    | .float =>
        let buffer ← PacketIn.readFixedString m buffer len
        return (⟨false, FieldValue.store (un.values column) 4 (fl.strtof buffer)⟩, buffer)
    | .double =>
        let buffer ← PacketIn.readFixedString m buffer len
        return (⟨false, FieldValue.store (un.values column) 8 (fl.strtod buffer)⟩, buffer)
    | .varchar | .bit | .newdecimal | .tinyBlob | .mediumBlob | .longBlob | .blob | .varString
    | .string =>
        PacketIn.skip len
        return (⟨false, FieldValue.store (un.values column) 4 bufferPos⟩, buffer)
    | _ => throw (.exception "not support mysql type")

/-- The loop of `ParseRowPacket`, from a column on. -/
def parseColumns (m : Bytes) (fl : Floats) (md : ResultSetMetadata) (un : Uninit) :
    Nat → Nat → List UInt8 → PacketIn.Op (List Field)
  | 0, _, _ => return []
  | left + 1, column, buffer => do
      let (field, buffer) ← parseColumn m fl md un column buffer
      let fields ← parseColumns m fl md un left (column + 1) buffer
      return field :: fields

/-- `ParseRowPacket` behind the `Swap`. -/
def parseRow (m : Bytes) (fl : Floats) (md : ResultSetMetadata) (un : Uninit) :
    PacketIn.Op (List Field) := do
  PacketIn.skipTo 4
  parseColumns m fl md un md.numColumns 0 []

end RowReaderText

/-- `RowReaderText`. -/
structure RowReaderText where
  pktin : PacketIn
  fields : List RowReaderText.Field
deriving DecidableEq, Repr

namespace RowReaderText

/-- `ParseRowPacket`. -/
def parseRowPacket (m : Bytes) (fl : Floats) (md : ResultSetMetadata) (un : Uninit)
    (data : PacketIn) : Except Fault RowReaderText :=
  match parseRow m fl md un data.swap with
  | (.ok fields, s) => .ok ⟨s, fields⟩
  | (.error e, _) => .error e

/-- The field of a getter. -/
def field (r : RowReaderText) (column : Nat) : Except Fault Field :=
  match r.fields[column]? with
  | some f => .ok f
  | none => .error .outOfRange

/-- `IsNull`. -/
def isNull (r : RowReaderText) (column : Nat) : Except Fault Bool := do
  let f ← r.field column
  return f.isNull

/-- A getter of a member of the union. -/
def getMember {α : Type} (member : FieldValue → α) (r : RowReaderText) (column : Nat) :
    Except Fault α := do
  let f ← r.field column
  if f.isNull then
    throw (.exception "null field")
  return member f.value

def getInt8 : RowReaderText → Nat → Except Fault Int8 := getMember FieldValue.int8
def getUInt8 : RowReaderText → Nat → Except Fault UInt8 := getMember FieldValue.uint8
def getInt16 : RowReaderText → Nat → Except Fault Int16 := getMember FieldValue.int16
def getUInt16 : RowReaderText → Nat → Except Fault UInt16 := getMember FieldValue.uint16
def getInt32 : RowReaderText → Nat → Except Fault Int32 := getMember FieldValue.int32
def getUInt32 : RowReaderText → Nat → Except Fault UInt32 := getMember FieldValue.uint32
def getInt64 : RowReaderText → Nat → Except Fault Int64 := getMember FieldValue.int64
def getUInt64 : RowReaderText → Nat → Except Fault UInt64 := getMember FieldValue.uint64

/-- `GetString`: it moves the cursor of the packet. -/
def getString (m : Bytes) (l : Locals) (r : RowReaderText) (column : Nat) :
    Except Fault (List UInt8) × RowReaderText :=
  match getMember FieldValue.bufferPos r column with
  | .error e => (.error e, r)
  | .ok bufferPos =>
      let (ret, s) := (do
        PacketIn.skipTo bufferPos
        PacketIn.readLengthEncodedString m l []) r.pktin
      (ret, { r with pktin := s })

end RowReaderText

/-! ### Binary -/

namespace RowReaderBinary

/-- `IsNull`: the bitmap is shifted by two bits. -/
def nullBit (bitmap : List UInt8) (column : Nat) : Except Fault Bool :=
  match bitmap[(column + 2) / 8]? with
  | some b => .ok (b.toNat.testBit ((column + 2) % 8))
  | none => .error .outOfRange

/-- One column of the loop of `ParseRowPacket`. -/
def parseColumn (m : Bytes) (md : ResultSetMetadata) (un : Uninit) (bitmap : List UInt8)
    (column : Nat) : PacketIn.Op FieldValue := do
  let cm ← orThrow (md.getColumnDefinition column)
  let null ← orThrow (nullBit bitmap column)
  if null then
    return un.values column
  else
    match cm.type with
    | .tiny => PacketIn.readFixedInteger m 1 (un.values column)
    | .short => PacketIn.readFixedInteger m 2 (un.values column)
    | .long => PacketIn.readFixedInteger m 4 (un.values column)
    | .longlong => PacketIn.readFixedInteger m 8 (un.values column)
    | .float => PacketIn.readFixedInteger m 4 (un.values column)
    | .double => PacketIn.readFixedInteger m 8 (un.values column)
    | .int24 => PacketIn.readFixedInteger m 4 (un.values column)
    | .year => PacketIn.readFixedInteger m 2 (un.values column)
    | .decimal | .varchar | .bit | .newdecimal | .tinyBlob | .mediumBlob | .longBlob | .blob
    | .varString | .string => do
        let s ← get
        let len ← PacketIn.readVariableInteger m 32 (un.locals column)
        PacketIn.skip len
        return FieldValue.store (un.values column) 4 s.packet.pos
    | _ => throw (.exception "not support mysql type")

/-- The loop of `ParseRowPacket`, from a column on. -/
def parseColumns (m : Bytes) (md : ResultSetMetadata) (un : Uninit) (bitmap : List UInt8) :
    Nat → Nat → PacketIn.Op (List FieldValue)
  | 0, _ => return []
  | left + 1, column => do
      let field ← parseColumn m md un bitmap column
      let fields ← parseColumns m md un bitmap left (column + 1)
      return field :: fields

/-- `ParseRowPacket` behind the `Swap`: the bitmap and the fields. -/
def parseRow (m : Bytes) (md : ResultSetMetadata) (un : Uninit) :
    PacketIn.Op (List UInt8 × List FieldValue) := do
  PacketIn.skipTo 5
  let bitmapLen := Gateway.u32 (md.numColumns + 7 + 2) / 8
  let bitmap ← PacketIn.getByte m bitmapLen
  let fields ← parseColumns m md un bitmap md.numColumns 0
  return (bitmap, fields)

end RowReaderBinary

/-- `RowReaderBinary`. -/
structure RowReaderBinary where
  pktin : PacketIn
  metadata : ResultSetMetadata
  bitmap : List UInt8
  fields : List FieldValue
deriving DecidableEq, Repr

namespace RowReaderBinary

/-- `ParseRowPacket`. -/
def parseRowPacket (m : Bytes) (md : ResultSetMetadata) (un : Uninit) (data : PacketIn) :
    Except Fault RowReaderBinary :=
  match parseRow m md un data.swap with
  | (.ok (bitmap, fields), s) => .ok ⟨s, md, bitmap, fields⟩
  | (.error e, _) => .error e

/-- `IsNull`. -/
def isNull (r : RowReaderBinary) (column : Nat) : Except Fault Bool := nullBit r.bitmap column

/-- A getter of a member of the union, for the types `allowed`. -/
def getMember {α : Type} (member : FieldValue → α) (allowed : List MysqlFieldType)
    (r : RowReaderBinary) (column : Nat) : Except Fault α := do
  let cm ← r.metadata.getColumnDefinition column
  if cm.type ∉ allowed then
    throw (.exception "field type mismatch or is null")
  if ← r.isNull column then
    throw (.exception "field type mismatch or is null")
  match r.fields[column]? with
  | some v => return member v
  | none => throw .outOfRange

def getInt8 : RowReaderBinary → Nat → Except Fault Int8 := getMember FieldValue.int8 [.tiny]
def getUInt8 : RowReaderBinary → Nat → Except Fault UInt8 := getMember FieldValue.uint8 [.tiny]

def getInt16 : RowReaderBinary → Nat → Except Fault Int16 :=
  getMember FieldValue.int16 [.short, .year]

def getUInt16 : RowReaderBinary → Nat → Except Fault UInt16 :=
  getMember FieldValue.uint16 [.short]

def getInt32 : RowReaderBinary → Nat → Except Fault Int32 :=
  getMember FieldValue.int32 [.long, .int24]

def getUInt32 : RowReaderBinary → Nat → Except Fault UInt32 :=
  getMember FieldValue.uint32 [.long, .int24]

def getInt64 : RowReaderBinary → Nat → Except Fault Int64 :=
  getMember FieldValue.int64 [.longlong]

def getUInt64 : RowReaderBinary → Nat → Except Fault UInt64 :=
  getMember FieldValue.uint64 [.longlong]

/-- `GetString`: it moves the cursor of the packet. -/
def getString (m : Bytes) (l : Locals) (r : RowReaderBinary) (column : Nat) :
    Except Fault (List UInt8) × RowReaderBinary :=
  match getMember FieldValue.bufferPos [.varString, .blob, .tinyBlob, .mediumBlob, .longBlob, .bit,
      .string, .varchar] r column with
  | .error e => (.error e, r)
  | .ok bufferPos =>
      let (ret, s) := (do
        PacketIn.skipTo bufferPos
        PacketIn.readLengthEncodedString m l []) r.pktin
      (ret, { r with pktin := s })

end RowReaderBinary

end Jengine.Dbo.Internal
