import Jengine.Dbo.RowBinary
import Jengine.Dbo.ResultSet

/-!
# Responses of the server

What a MySQL server answers to a query, as the payloads of its packets: an OK packet, an ERR
packet, or a result set, which is the number of columns, their definitions, an EOF packet, the
rows, and an EOF packet or, if the query fails while rows are sent, an ERR packet.
-/

namespace Jengine.Dbo.Internal

open Jengine.Lib Jengine.Memory RefMemoryChunk

/-! ### Rows -/

/-- A field of a row, `none` for NULL, with the column it is in. -/
abbrev RowField := ColumnDefinition × Option (List UInt8)

/-- The bytes of a value in the binary protocol, where there is no length before them. -/
def MysqlFieldType.fixedWidth : MysqlFieldType → Option Nat
  | .tiny => some 1
  | .short | .year => some 2
  | .long | .int24 | .float => some 4
  | .longlong | .double => some 8
  | _ => none

/-- A value without a length has the bytes of its type. -/
def RowField.Sized (f : RowField) : Prop :=
  ∀ value width, f.2 = some value → f.1.type.fixedWidth = some width → value.length = width

/-- The bytes of a field in a row packet. -/
def RowField.encoded (protocol : ProtocolType) (f : RowField) : List UInt8 :=
  match protocol, f.2, f.1.type.fixedWidth with
  | .text, none, _ => [0xFB]
  | .text, some value, _ => lengthEncoded value
  | .binary, none, _ => []
  | .binary, some value, some _ => value
  | .binary, some value, none => lengthEncoded value

/-- The payload of a row packet. -/
def rowPayload (protocol : ProtocolType) (fields : List RowField) : List UInt8 :=
  match protocol with
  | .text => fields.flatMap (RowField.encoded .text)
  | .binary => 0 :: (nullBitmap (fields.map fun f => f.2.isNone) ++
      fields.flatMap (RowField.encoded .binary))

/-- The types in the switch of a row reader. -/
def MysqlFieldType.supported (protocol : ProtocolType) : MysqlFieldType → Bool
  | .tiny | .short | .long | .year | .longlong | .float | .double => true
  | .varchar | .bit | .newdecimal | .tinyBlob | .mediumBlob | .longBlob | .blob | .varString
  | .string => true
  | .int24 | .decimal => protocol == .binary
  | _ => false

/-! ### Packets -/

/-- The strings of a column definition. -/
def ColumnDefinition.strings (cm : ColumnDefinition) : List (List UInt8) :=
  [cm.catalog, cm.schema, cm.table, cm.orgTable, cm.name, cm.orgName]

/-- The payload of a column definition. -/
def columnPayload (cm : ColumnDefinition) : List UInt8 :=
  cm.strings.flatMap lengthEncoded ++ variableInteger cm.fixedLength.toNat ++
    toLE 2 cm.charset.toNat ++ toLE 4 cm.columnLength.toNat ++ toLE 1 cm.type.code.toNat ++
    toLE 2 cm.flag.toNat ++ toLE 1 cm.decimals.toNat ++ toLE 2 cm.filter.toNat

def okPayload (affectedRows lastInsertId : UInt64) (statusFlag warnings : UInt16)
    (info : List UInt8) : List UInt8 :=
  packetOk :: (variableInteger affectedRows.toNat ++ variableInteger lastInsertId.toNat ++
    toLE 2 statusFlag.toNat ++ toLE 2 warnings.toNat ++ info)

/-- `message` is what follows the code: the SQL state with its marker, and the text. -/
def errPayload (code : UInt16) (message : List UInt8) : List UInt8 :=
  packetErr :: (toLE 2 code.toNat ++ message)

def eofPayload (warnings statusFlag : UInt16) : List UInt8 :=
  packetEof :: (toLE 2 warnings.toNat ++ toLE 2 statusFlag.toNat)

/-- The last packet of a result set. -/
inductive Ending where
  | eof (warnings statusFlag : UInt16)
  | err (code : UInt16) (message : List UInt8)
deriving DecidableEq, Repr

def Ending.payload : Ending → List UInt8
  | .eof warnings statusFlag => eofPayload warnings statusFlag
  | .err code message => errPayload code message

/-! ### Responses -/

/-- A response; the fields of a row are in the order of the columns. -/
inductive Response where
  | ok (affectedRows lastInsertId : UInt64) (statusFlag warnings : UInt16) (info : List UInt8)
  | err (code : UInt16) (message : List UInt8)
  | resultset (columns : List ColumnDefinition) (warnings statusFlag : UInt16)
      (rows : List (List (Option (List UInt8)))) (ending : Ending)
deriving DecidableEq, Repr

namespace Response

/-- The payloads of the packets, in their order. -/
def payloads (protocol : ProtocolType) : Response → List (List UInt8)
  | .ok affectedRows lastInsertId statusFlag warnings info =>
      [okPayload affectedRows lastInsertId statusFlag warnings info]
  | .err code message => [errPayload code message]
  | .resultset columns warnings statusFlag rows ending =>
      variableInteger columns.length :: (columns.map columnPayload ++
        eofPayload warnings statusFlag ::
          (rows.map (fun row => rowPayload protocol (columns.zip row)) ++ [ending.payload]))

/-- The code of the ERR packet that ends the response. -/
def error : Response → Option UInt16
  | .err code _ => some code
  | .resultset _ _ _ _ (.err code _) => some code
  | _ => none

/-- The number of column definitions. -/
def columnCount : Response → Nat
  | .resultset columns _ _ _ _ => columns.length
  | _ => 0

/-- The packets that have a row. -/
def rowPackets {α : Type} (packets : List α) : Response → List α
  | .resultset columns _ _ rows _ => (packets.drop (columns.length + 2)).take rows.length
  | _ => []

/-- Every payload is in one packet, there are columns, and a row has a field for each of them. -/
structure WellFormed (protocol : ProtocolType) (r : Response) : Prop where
  fits : ∀ payload ∈ r.payloads protocol, payload.length < 2 ^ 24 - 1
  content : match r with
    | .resultset columns _ _ rows _ =>
        0 < columns.length ∧ columns.length < 2 ^ 64 ∧
          (∀ cm ∈ columns, MysqlFieldType.ofCode cm.type.code = cm.type) ∧
          ∀ row ∈ rows, row.length = columns.length ∧
            (protocol = .binary → ∀ f ∈ columns.zip row, RowField.Sized f)
    | _ => True

end Response

end Jengine.Dbo.Internal
