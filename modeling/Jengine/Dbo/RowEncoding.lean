import Jengine.Dbo.RowReader
import Mathlib.Tactic.Positivity
import Mathlib.Tactic.Ring
import Mathlib.Tactic.Zify

/-!
# Rows in the text and in the binary protocol

A logical row, and its bytes in the two protocols.  In the text protocol every field is a string
with its length, and NULL is the byte `0xFB`; in the binary protocol a bitmap says which fields
are NULL, and an integer has as many bytes as its type.  Both readers keep an integer as the
last bytes of it in a union, so what a getter returns is a question of the bits of the union.
-/

namespace Jengine.Dbo.Internal

open Jengine.Lib Jengine.Memory RefMemoryChunk

/-! ### Rows -/

/-- The value of a field. -/
inductive FieldData where
  | null
  | int (v : Int)
  | bytes (str : List UInt8)
deriving DecidableEq, Repr

/-- The bits of an integer type. -/
def MysqlFieldType.intBits : MysqlFieldType → Option Nat
  | .tiny => some 8
  | .short => some 16
  | .int24 => some 24
  | .long => some 32
  | .longlong => some 64
  | _ => none

/-- The string types. -/
def MysqlFieldType.isString : MysqlFieldType → Bool
  | .varchar | .varString | .string | .tinyBlob | .mediumBlob | .longBlob | .blob => true
  | _ => false

/-- NULL, an integer in the range of its type, or a string in a column of a string type. -/
def Admissible (cm : ColumnDefinition) : FieldData → Prop
  | .null => True
  | .int v => ∃ bits, cm.type.intBits = some bits ∧
      if cm.isUnsigned then 0 ≤ v ∧ v < 2 ^ bits else -2 ^ (bits - 1) ≤ v ∧ v < 2 ^ (bits - 1)
  | .bytes _ => cm.type.isString = true

/-- A field of a row with its column. -/
structure Cell where
  definition : ColumnDefinition
  data : FieldData
  admissible : Admissible definition data

def metadataOf (row : List Cell) : ResultSetMetadata := ⟨row.map Cell.definition, row.length⟩

/-! ### The two encodings -/

/-- A field in the text protocol. -/
def textField : FieldData → List UInt8
  | .null => [0xFB]
  | .int v => lengthEncoded (decimalInt v)
  | .bytes str => lengthEncoded str

def textRow (row : List Cell) : List UInt8 := row.flatMap fun c => textField c.data

/-- The bytes of an integer type in the binary protocol. -/
def MysqlFieldType.binaryWidth : MysqlFieldType → Nat
  | .tiny => 1
  | .short => 2
  | .longlong => 8
  | _ => 4

/-- A field in the binary protocol: integers in two's complement. -/
def binaryField (c : Cell) : List UInt8 :=
  match c.data with
  | .null => []
  | .int v => toLE c.definition.type.binaryWidth
      (v % 256 ^ c.definition.type.binaryWidth).toNat
  | .bytes str => lengthEncoded str

/-- Bit `i + 2` of the bitmap says whether field `i` is NULL. -/
def nullBitmap (nulls : List Bool) : List UInt8 :=
  (List.range ((nulls.length + 9) / 8)).map fun j => UInt8.ofNat (Nat.ofBits fun k : Fin 8 =>
    decide (2 ≤ 8 * j + k.val) && nulls.getD (8 * j + k.val - 2) false)

def nullsOf (row : List Cell) : List Bool := row.map fun c => decide (c.data = .null)

def binaryRow (row : List Cell) : List UInt8 :=
  0 :: (nullBitmap (nullsOf row) ++ row.flatMap binaryField)

/-! ### The getters -/

inductive Getter where
  | int8 | uint8 | int16 | uint16 | int32 | uint32 | int64 | uint64 | string
deriving DecidableEq, Repr

/-- The getter of a column's own type. -/
def ColumnDefinition.getter (cm : ColumnDefinition) : Getter :=
  match cm.type, cm.isUnsigned with
  | .tiny, false => .int8
  | .tiny, true => .uint8
  | .short, false => .int16
  | .short, true => .uint16
  | .int24, false | .long, false => .int32
  | .int24, true | .long, true => .uint32
  | .longlong, false => .int64
  | .longlong, true => .uint64
  | _, _ => .string

def RowReaderText.get (m : Bytes) (l : Locals) (g : Getter) (r : RowReaderText) (column : Nat) :
    Except Fault FieldData × RowReaderText :=
  match g with
  | .int8 => ((r.getInt8 column).map fun v => .int v.toInt, r)
  | .uint8 => ((r.getUInt8 column).map fun v => .int v.toNat, r)
  | .int16 => ((r.getInt16 column).map fun v => .int v.toInt, r)
  | .uint16 => ((r.getUInt16 column).map fun v => .int v.toNat, r)
  | .int32 => ((r.getInt32 column).map fun v => .int v.toInt, r)
  | .uint32 => ((r.getUInt32 column).map fun v => .int v.toNat, r)
  | .int64 => ((r.getInt64 column).map fun v => .int v.toInt, r)
  | .uint64 => ((r.getUInt64 column).map fun v => .int v.toNat, r)
  | .string => ((r.getString m l column).1.map .bytes, (r.getString m l column).2)

def RowReaderBinary.get (m : Bytes) (l : Locals) (g : Getter) (r : RowReaderBinary)
    (column : Nat) : Except Fault FieldData × RowReaderBinary :=
  match g with
  | .int8 => ((r.getInt8 column).map fun v => .int v.toInt, r)
  | .uint8 => ((r.getUInt8 column).map fun v => .int v.toNat, r)
  | .int16 => ((r.getInt16 column).map fun v => .int v.toInt, r)
  | .uint16 => ((r.getUInt16 column).map fun v => .int v.toNat, r)
  | .int32 => ((r.getInt32 column).map fun v => .int v.toInt, r)
  | .uint32 => ((r.getUInt32 column).map fun v => .int v.toNat, r)
  | .int64 => ((r.getInt64 column).map fun v => .int v.toInt, r)
  | .uint64 => ((r.getUInt64 column).map fun v => .int v.toNat, r)
  | .string => ((r.getString m l column).1.map .bytes, (r.getString m l column).2)

/-- One call after the other. -/
def getAll {R C : Type} (get : C → R → Except Fault FieldData × R) :
    List C → R → List (Except Fault FieldData)
  | [], _ => []
  | c :: cs, r => (get c r).1 :: getAll get cs (get c r).2

/-! ### The bits of the union -/

/-- The last `w` bits of the union are those of `v`. -/
def Stores (w : Nat) (value : FieldValue) (v : Int) : Prop :=
  BitVec.ofNat w value = BitVec.ofInt w v

theorem stores_store (old : FieldValue) {w n : Nat} (h : w ≤ 8 * n) (v : Int) :
    Stores w (FieldValue.store old n v) v := by
  have hpow : 256 ^ n = 2 ^ (8 * n) := (Nat.pow_mul 2 8 n).symm
  have hdvd : 2 ^ w ∣ 256 ^ n := hpow ▸ Nat.pow_dvd_pow 2 h
  have hpos : (0 : Int) < 256 ^ n := by positivity
  have hlow : (v % 256 ^ n).toNat < 256 ^ n := by
    have hlt := Int.emod_lt_of_pos v hpos
    have hge := Int.emod_nonneg v (Int.ne_of_gt hpos)
    zify
    rwa [Int.toNat_of_nonneg hge]
  refine BitVec.eq_of_toNat_eq ?_
  rw [BitVec.toNat_ofNat, BitVec.toNat_ofInt, FieldValue.store, overwritten,
    ofLE_toLE_of_lt hlow, length_toLE]
  -- what lies above the stored bytes does not matter
  obtain ⟨k, hk⟩ := hdvd
  have habove : old / 256 ^ n * 256 ^ n = 2 ^ w * (old / 256 ^ n * k) := by
    rw [hk]
    ring
  rw [habove, Nat.add_mul_mod_self_left]
  zify
  have hge := Int.emod_nonneg v (Int.ne_of_gt hpos)
  have hge' := Int.emod_nonneg v (show (2 : Int) ^ w ≠ 0 by positivity)
  rw [Int.toNat_of_nonneg hge]
  rw [Int.toNat_of_nonneg hge']
  exact Int.emod_emod_of_dvd v ⟨k, by exact_mod_cast hk⟩

theorem Stores.toInt {w : Nat} {value : FieldValue} {v : Int} (h : Stores w value v)
    (hw : 0 < w) (hlo : -2 ^ (w - 1) ≤ v) (hhi : v < 2 ^ (w - 1)) :
    (BitVec.ofNat w value).toInt = v := by
  rw [h]
  exact BitVec.toInt_ofInt_eq_self hw hlo hhi

theorem Stores.toNat {w : Nat} {value : FieldValue} {v : Int} (h : Stores w value v)
    (hlo : 0 ≤ v) (hhi : v < 2 ^ w) : ((BitVec.ofNat w value).toNat : Int) = v := by
  rw [h, BitVec.toNat_ofInt]
  push_cast
  rw [Int.emod_eq_of_lt hlo hhi, Int.toNat_of_nonneg hlo]

end Jengine.Dbo.Internal
