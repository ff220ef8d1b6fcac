import Jengine.Dbo.RowReader
import Jengine.Dbo.SharedPool
import Mathlib.Data.List.Induction
import Mathlib.Data.Nat.Bitwise

/-!
# Parameters of a prepared statement

The constructor, `Set*` and `EnsureParamBitmapCapacity` of `PreparedStatement`
(`base/dbo_bk/preparedstatement.h`, `preparedstatement.cpp`).  The parameters are set in order,
and `SetNull` sets the bit of the next one.  It makes the bitmap long enough for the parameters
before that one only, so the first of every eight has no byte.

The values are written to `params_`, a packet that has been made and then put back to its start:
its size is four before anything is written.
-/

namespace Jengine.Dbo.Internal

open Jengine.Lib Jengine.Memory RefMemoryChunk
open Gateway.PacketOut (Op Out Rep putByte)
open PacketOut (Beside Tame Puts tame_putByte puts_putByte tame_writeLengthEncodedString
  puts_writeLengthEncodedString)

/-- `tm`. -/
structure Tm where
  year : Int32
  mon : Int32
  mday : Int32
  hour : Int32
  min : Int32
  sec : Int32
deriving DecidableEq, Repr

/-- `PreparedStatement`, as far as its parameters go. -/
structure PreparedStatement where
  cursorFlag : UInt8
  bitmap : List UInt8
  paramsType : List UInt16
  params : Out
  paramsIdx : UInt32

/-- `PreparedStatementMetadata`. -/
structure PreparedStatementMetadata where
  statementId : UInt32
  numColumns : UInt16
  numParams : UInt16
  paramsDef : List ColumnDefinition
  columnsDef : List ColumnDefinition
deriving DecidableEq, Repr

/-- What a call on a packet gives its caller. -/
def liftPacket (r : Except Gateway.Fault (Unit × Out)) : Except Fault Out :=
  match r with
  | .ok (_, o) => .ok o
  | .error e => .error (.ofPacket e)

/-- `mysql_unsigned`. -/
def mysqlUnsigned (type : MysqlFieldType) : UInt16 := 0x8000 ||| type.code.toUInt16

namespace PreparedStatement

/-- The constructor; `SetCursorFlag` may have been called. -/
def make (mempool : MemoryPool) (cursorFlag : UInt8) : Except Fault PreparedStatement := do
  let params ← liftPacket (PacketOut.make mempool 200)
  let params ← liftPacket (Gateway.PacketOut.skipTo 0 params)
  return ⟨cursorFlag, [], [], params, 0⟩

/-- `EnsureParamBitmapCapacity`. -/
def ensureParamBitmapCapacity (st : PreparedStatement) : PreparedStatement :=
  let bitmapLen := ((st.paramsIdx + 7) / 8).toNat
  if st.bitmap.length < bitmapLen then { st with bitmap := resize st.bitmap bitmapLen } else st

/-- `SetNull`. -/
def setNull (st : PreparedStatement) : Except Fault PreparedStatement :=
  let st := st.ensureParamBitmapCapacity
  let bytePos := (st.paramsIdx / 8).toNat
  let bitPos := (st.paramsIdx % 8).toNat
  match st.bitmap[bytePos]? with
  | some b => .ok { st with
      bitmap := st.bitmap.set bytePos (b ||| UInt8.ofNat (1 <<< bitPos))
      paramsType := st.paramsType ++ [MysqlFieldType.null.code.toUInt16]
      paramsIdx := st.paramsIdx + 1 }
  | none => .error .outOfRange

/-- The body of the other setters. -/
def setValue (write : Op Unit) (type : UInt16) (st : PreparedStatement) :
    Except Fault PreparedStatement := do
  let params ← liftPacket (write st.params)
  return { st with
    params := params
    paramsType := st.paramsType ++ [type]
    paramsIdx := st.paramsIdx + 1 }

/-- What `SetDateTime` writes. -/
def writeDateTime (dt : Tm) : Op Unit :=
  if dt.hour ≠ 0 ∨ dt.min ≠ 0 ∨ dt.sec ≠ 0 then do
    putByte (toLE 1 7)
    putByte (toLE 2 dt.year.toBitVec.toNat)
    putByte (toLE 1 dt.mon.toBitVec.toNat)
    putByte (toLE 1 dt.mday.toBitVec.toNat)
    putByte (toLE 1 dt.hour.toBitVec.toNat)
    putByte (toLE 1 dt.min.toBitVec.toNat)
    putByte (toLE 1 dt.sec.toBitVec.toNat)
  else if dt.year = 0 ∧ dt.mon = 0 ∧ dt.mday = 0 then
    putByte (toLE 1 0)
  else do
    putByte (toLE 1 4)
    putByte (toLE 2 dt.year.toBitVec.toNat)
    putByte (toLE 1 dt.mon.toBitVec.toNat)
    putByte (toLE 1 dt.mday.toBitVec.toNat)

def setInt8 (v : Int8) : PreparedStatement → Except Fault PreparedStatement :=
  setValue (putByte (toLE 1 v.toBitVec.toNat)) MysqlFieldType.tiny.code.toUInt16

def setUInt8 (v : UInt8) : PreparedStatement → Except Fault PreparedStatement :=
  setValue (putByte (toLE 1 v.toNat)) (mysqlUnsigned .tiny)

def setInt16 (v : Int16) : PreparedStatement → Except Fault PreparedStatement :=
  setValue (putByte (toLE 2 v.toBitVec.toNat)) MysqlFieldType.short.code.toUInt16

def setUInt16 (v : UInt16) : PreparedStatement → Except Fault PreparedStatement :=
  setValue (putByte (toLE 2 v.toNat)) (mysqlUnsigned .short)

def setInt32 (v : Int32) : PreparedStatement → Except Fault PreparedStatement :=
  setValue (putByte (toLE 4 v.toBitVec.toNat)) MysqlFieldType.long.code.toUInt16

def setUInt32 (v : UInt32) : PreparedStatement → Except Fault PreparedStatement :=
  setValue (putByte (toLE 4 v.toNat)) (mysqlUnsigned .long)

def setInt64 (v : Int64) : PreparedStatement → Except Fault PreparedStatement :=
  setValue (putByte (toLE 8 v.toBitVec.toNat)) MysqlFieldType.longlong.code.toUInt16

def setUInt64 (v : UInt64) : PreparedStatement → Except Fault PreparedStatement :=
  setValue (putByte (toLE 8 v.toNat)) (mysqlUnsigned .longlong)

/-- Both `SetString`; the one with a length is given as many bytes. -/
def setString (v : List UInt8) : PreparedStatement → Except Fault PreparedStatement :=
  setValue (PacketOut.writeLengthEncodedString v) MysqlFieldType.varchar.code.toUInt16

def setBinary (v : List UInt8) : PreparedStatement → Except Fault PreparedStatement :=
  setValue (PacketOut.writeLengthEncodedString v) MysqlFieldType.string.code.toUInt16

/-- `SetFloat`, on the bit pattern. -/
def setFloat (v : UInt32) : PreparedStatement → Except Fault PreparedStatement :=
  setValue (putByte (toLE 4 v.toNat)) MysqlFieldType.float.code.toUInt16

/-- `SetDouble`, on the bit pattern. -/
def setDouble (v : UInt64) : PreparedStatement → Except Fault PreparedStatement :=
  setValue (putByte (toLE 8 v.toNat)) MysqlFieldType.double.code.toUInt16

def setDateTime (dt : Tm) : PreparedStatement → Except Fault PreparedStatement :=
  setValue (writeDateTime dt) MysqlFieldType.datetime.code.toUInt16

/-- `SetBoolean`. -/
def setBoolean (v : Bool) : PreparedStatement → Except Fault PreparedStatement :=
  setInt8 (if v then 1 else 0)

end PreparedStatement

/-- A call of a setter. -/
inductive Param where
  | null
  | boolean (v : Bool)
  | int8 (v : Int8)
  | uint8 (v : UInt8)
  | int16 (v : Int16)
  | uint16 (v : UInt16)
  | int32 (v : Int32)
  | uint32 (v : UInt32)
  | int64 (v : Int64)
  | uint64 (v : UInt64)
  | string (v : List UInt8)
  | binary (v : List UInt8)
  | float (v : UInt32)
  | double (v : UInt64)
  | dateTime (dt : Tm)
deriving DecidableEq, Repr

open PreparedStatement in
/-- The call. -/
def Param.set (p : Param) (st : PreparedStatement) : Except Fault PreparedStatement :=
  match p with
  | .null => setNull st
  | .boolean v => setBoolean v st
  | .int8 v => setInt8 v st
  | .uint8 v => setUInt8 v st
  | .int16 v => setInt16 v st
  | .uint16 v => setUInt16 v st
  | .int32 v => setInt32 v st
  | .uint32 v => setUInt32 v st
  | .int64 v => setInt64 v st
  | .uint64 v => setUInt64 v st
  | .string v => setString v st
  | .binary v => setBinary v st
  | .float v => setFloat v st
  | .double v => setDouble v st
  | .dateTime dt => setDateTime dt st

/-- The type of a parameter, with the flag for unsigned ones. -/
def Param.type : Param → UInt16
  | .null => 6
  | .boolean _ => 1
  | .int8 _ => 1
  | .uint8 _ => 0x8001
  | .int16 _ => 2
  | .uint16 _ => 0x8002
  | .int32 _ => 3
  | .uint32 _ => 0x8003
  | .int64 _ => 8
  | .uint64 _ => 0x8008
  | .string _ => 15
  | .binary _ => 254
  | .float _ => 4
  | .double _ => 5
  | .dateTime _ => 12

/-- The bytes of a date and time; the time is left out where it is zero, and then the date. -/
def dateTimeBytes (dt : Tm) : List UInt8 :=
  let date := toLE 2 dt.year.toBitVec.toNat ++ toLE 1 dt.mon.toBitVec.toNat ++
    toLE 1 dt.mday.toBitVec.toNat
  if dt.hour ≠ 0 ∨ dt.min ≠ 0 ∨ dt.sec ≠ 0 then
    [7] ++ date ++ toLE 1 dt.hour.toBitVec.toNat ++ toLE 1 dt.min.toBitVec.toNat ++
      toLE 1 dt.sec.toBitVec.toNat
  else if dt.year = 0 ∧ dt.mon = 0 ∧ dt.mday = 0 then [0]
  else [4] ++ date

/-- The value of a parameter as it is sent. -/
def Param.bytes : Param → List UInt8
  | .null => []
  | .boolean v => [if v then 1 else 0]
  | .int8 v => toLE 1 v.toBitVec.toNat
  | .uint8 v => toLE 1 v.toNat
  | .int16 v => toLE 2 v.toBitVec.toNat
  | .uint16 v => toLE 2 v.toNat
  | .int32 v => toLE 4 v.toBitVec.toNat
  | .uint32 v => toLE 4 v.toNat
  | .int64 v => toLE 8 v.toBitVec.toNat
  | .uint64 v => toLE 8 v.toNat
  | .string v => lengthEncoded v
  | .binary v => lengthEncoded v
  | .float v => toLE 4 v.toNat
  | .double v => toLE 8 v.toNat
  | .dateTime dt => dateTimeBytes dt

/-- One call after the other on a new statement. -/
def setAll (mempool : MemoryPool) (cursorFlag : UInt8) (calls : List Param) :
    Except Fault PreparedStatement := do
  let st ← PreparedStatement.make mempool cursorFlag
  calls.foldlM (fun st p => p.set st) st

/-- `mempool_` of `RealConnectionPoolManager`, whatever it has been used for. -/
structure ManagerPool where
  pool : MemoryPool
  inv : pool.Inv []
  chunksize : pool.chunksize = 256
  poolsize : pool.poolsize = 2560

/-! ### The bits of the bitmap -/

/-- Bit `i` of a bitmap; there are zeros behind its end. -/
def bitAt (bitmap : List UInt8) (i : Nat) : Bool :=
  (bitmap.getD (i / 8) 0).toNat.testBit (i % 8)

theorem bitAt_resize {bitmap : List UInt8} {len : Nat} (h : bitmap.length ≤ len) (i : Nat) :
    bitAt (resize bitmap len) i = bitAt bitmap i := by
  have hget : (resize bitmap len).getD (i / 8) 0 = bitmap.getD (i / 8) 0 := by
    simp only [resize, List.take_of_length_le h, List.getD_eq_getElem?_getD]
    rcases Nat.lt_or_ge (i / 8) bitmap.length with hlt | hge
    · rw [List.getElem?_append_left hlt]
    · rw [List.getElem?_append_right hge, List.getElem?_eq_none hge, List.getElem?_replicate]
      split <;> rfl
  rw [bitAt, hget, bitAt]

/-- Or-ing one bit into a byte sets that bit and no other. -/
theorem bitAt_set {bitmap : List UInt8} {k : Nat} {b : UInt8} (hb : bitmap[k / 8]? = some b)
    (i : Nat) : bitAt (bitmap.set (k / 8) (b ||| UInt8.ofNat (1 <<< (k % 8)))) i = true ↔
      bitAt bitmap i = true ∨ i = k := by
  have hk : k / 8 < bitmap.length := (List.getElem?_eq_some_iff.mp hb).1
  have hmask : (UInt8.ofNat (1 <<< (k % 8))).toNat = 2 ^ (k % 8) := by
    rw [Nat.one_shiftLeft]
    refine UInt8.toNat_ofNat_of_lt' ?_
    calc 2 ^ (k % 8) < 2 ^ 8 := Nat.pow_lt_pow_right (by decide) (Nat.mod_lt _ (by decide))
      _ = UInt8.size := rfl
  unfold bitAt
  simp only [List.getD_eq_getElem?_getD, List.getElem?_set]
  by_cases hbyte : k / 8 = i / 8
  · have hbi : bitmap[i / 8]? = some b := by rw [← hbyte, hb]
    have hbit : k % 8 = i % 8 ↔ i = k := by omega
    rw [if_pos hbyte, if_pos (hbyte ▸ hk), hbi]
    simp only [Option.getD_some, UInt8.toNat_or, hmask, Nat.testBit_or, Nat.testBit_two_pow,
      Bool.or_eq_true, decide_eq_true_eq, hbit]
  · have hne : i ≠ k := fun h => hbyte (by rw [h])
    rw [if_neg hbyte]
    simp only [hne, or_false]

/-! ### The packet of the values -/

/-- What every write leaves of it, whatever is written. -/
structure Ready (o : Out) : Prop where
  beside : Beside [] o
  nonempty : o.packet.data ≠ []
  head_le : 4 ≤ o.packet.size
  chunksize : o.pool.chunksize = 256

/-- The values `ws` have been written.  The first four bytes count as written from the start. -/
structure Holds (o : Out) (ws : List UInt8) : Prop where
  rep : Rep o ws
  size : o.packet.size = max 4 ws.length

theorem Ready.write {o o' : Out} (h : Ready o) {write : Op Unit} (htame : Tame write)
    (hop : write o = .ok ((), o')) : Ready o' := by
  have hleaves := htame [] o o' h.beside hop
  have hlen := List.length_pos_iff.mpr h.nonempty
  exact ⟨hleaves.beside, List.length_pos_iff.mp (Nat.lt_of_lt_of_le hlen hleaves.length_le),
    Nat.le_trans h.head_le hleaves.size_le, hleaves.chunksize.trans h.chunksize⟩

theorem Holds.write {o : Out} {ws xs : List UInt8} (h : Holds o ws) (hready : Ready o)
    {write : Op Unit} (hputs : Puts write xs)
    (hroom : ws.length + 2 * xs.length + 266 ≤ 2 ^ 32) :
    ∃ o', write o = .ok ((), o') ∧ Holds o' (ws ++ xs) := by
  have hcs := hready.chunksize
  obtain ⟨o', hop, hrep, hsize, -, -⟩ :=
    hputs o ws h.rep (by omega) (Or.inr (by omega))
  refine ⟨o', hop, hrep, ?_⟩
  rw [hsize, h.size, List.length_append]
  omega

theorem tame_writeDateTime (dt : Tm) : Tame (PreparedStatement.writeDateTime dt) := by
  have hput := tame_putByte
  unfold PreparedStatement.writeDateTime
  exact ((hput _).seq ((hput _).seq ((hput _).seq ((hput _).seq ((hput _).seq ((hput _).seq
    (hput _))))))).ite ((hput _).ite ((hput _).seq ((hput _).seq ((hput _).seq (hput _)))))

theorem puts_writeDateTime (dt : Tm) :
    Puts (PreparedStatement.writeDateTime dt) (dateTimeBytes dt) := by
  have hput := puts_putByte
  unfold PreparedStatement.writeDateTime dateTimeBytes
  split
  · have hlength : Puts (putByte (toLE 1 7)) [7] := hput _
    have hall := hlength.seq ((hput (toLE 2 dt.year.toBitVec.toNat)).seq
      ((hput (toLE 1 dt.mon.toBitVec.toNat)).seq ((hput (toLE 1 dt.mday.toBitVec.toNat)).seq
      ((hput (toLE 1 dt.hour.toBitVec.toNat)).seq ((hput (toLE 1 dt.min.toBitVec.toNat)).seq
      (hput (toLE 1 dt.sec.toBitVec.toNat)))))))
    simpa only [List.append_assoc] using hall
  · split
    · exact hput (toLE 1 0)
    · have hlength : Puts (putByte (toLE 1 4)) [4] := hput _
      have hall := hlength.seq ((hput (toLE 2 dt.year.toBitVec.toNat)).seq
        ((hput (toLE 1 dt.mon.toBitVec.toNat)).seq (hput (toLE 1 dt.mday.toBitVec.toNat))))
      simpa only [List.append_assoc] using hall

theorem length_lt_of_lengthEncoded {str : List UInt8} (h : (lengthEncoded str).length < 2 ^ 32) :
    str.length < 2 ^ 32 := by
  rw [lengthEncoded, List.length_append] at h
  omega

/-- The setters of values differ in what they write and in the type. -/
theorem Param.set_eq {p : Param} (hp : p ≠ .null) : ∃ write, Tame write ∧
    (p.bytes.length < 2 ^ 32 → Puts write p.bytes) ∧
    ∀ st, p.set st = PreparedStatement.setValue write p.type st := by
  have hput : ∀ bytes, Tame (putByte bytes) ∧
      (bytes.length < 2 ^ 32 → Puts (putByte bytes) bytes) :=
    fun bytes => ⟨tame_putByte bytes, fun _ => puts_putByte bytes⟩
  have hstr : ∀ str, Tame (PacketOut.writeLengthEncodedString str) ∧
      ((lengthEncoded str).length < 2 ^ 32 →
        Puts (PacketOut.writeLengthEncodedString str) (lengthEncoded str)) :=
    fun str => ⟨tame_writeLengthEncodedString str,
      fun h => puts_writeLengthEncodedString (length_lt_of_lengthEncoded h)⟩
  cases p with
  | null => exact absurd rfl hp
  | boolean v => cases v <;> exact ⟨_, (hput _).1, (hput _).2, fun _ => rfl⟩
  | int8 v => exact ⟨_, (hput _).1, (hput _).2, fun _ => rfl⟩
  | uint8 v => exact ⟨_, (hput _).1, (hput _).2, fun _ => rfl⟩
  | int16 v => exact ⟨_, (hput _).1, (hput _).2, fun _ => rfl⟩
  | uint16 v => exact ⟨_, (hput _).1, (hput _).2, fun _ => rfl⟩
  | int32 v => exact ⟨_, (hput _).1, (hput _).2, fun _ => rfl⟩
  | uint32 v => exact ⟨_, (hput _).1, (hput _).2, fun _ => rfl⟩
  | int64 v => exact ⟨_, (hput _).1, (hput _).2, fun _ => rfl⟩
  | uint64 v => exact ⟨_, (hput _).1, (hput _).2, fun _ => rfl⟩
  | string v => exact ⟨_, (hstr v).1, (hstr v).2, fun _ => rfl⟩
  | binary v => exact ⟨_, (hstr v).1, (hstr v).2, fun _ => rfl⟩
  | float v => exact ⟨_, (hput _).1, (hput _).2, fun _ => rfl⟩
  | double v => exact ⟨_, (hput _).1, (hput _).2, fun _ => rfl⟩
  | dateTime dt =>
      exact ⟨_, tame_writeDateTime dt, fun _ => puts_writeDateTime dt, fun _ => rfl⟩

theorem setValue_ok {write : Op Unit} {type : UInt16} {st : PreparedStatement} {o : Out}
    (hop : write st.params = .ok ((), o)) : PreparedStatement.setValue write type st = .ok { st with
      params := o
      paramsType := st.paramsType ++ [type]
      paramsIdx := st.paramsIdx + 1 } := by
  simp only [PreparedStatement.setValue, hop, liftPacket, bind, Except.bind, pure, Except.pure]

theorem of_setValue_ok {write : Op Unit} {type : UInt16} {st st' : PreparedStatement}
    (h : PreparedStatement.setValue write type st = .ok st') :
    ∃ o, write st.params = .ok ((), o) ∧ st' = { st with
      params := o
      paramsType := st.paramsType ++ [type]
      paramsIdx := st.paramsIdx + 1 } := by
  rcases hop : write st.params with e | ⟨u, o⟩
  · simp only [PreparedStatement.setValue, hop, liftPacket, bind, Except.bind] at h
    cases h
  · exact ⟨o, rfl, (Except.ok.inj ((setValue_ok hop).symm.trans h)).symm⟩

/-- A new packet for the values. -/
theorem ready_make (mempool : ManagerPool) :
    ∃ o1 o, PacketOut.make mempool.pool 200 = .ok ((), o1) ∧
      Gateway.PacketOut.skipTo 0 o1 = .ok ((), o) ∧ Ready o ∧ Holds o [] := by
  have hcs := mempool.chunksize
  obtain ⟨o1, stale, hmake, hrep1, hstale, hsize1, hcs1⟩ :=
    PacketOut.make_spec mempool.inv (by omega) (by decide : 200 < 2 ^ 24) (by omega)
  obtain ⟨o, hskip, hrep, -, hsize, hcap, hpool⟩ :=
    Gateway.PacketOut.skipTo_spec hrep1 (Nat.zero_le _)
  rw [List.take_zero] at hrep
  have hnew := (PacketOut.beside_empty mempool.inv).aquireMemory 200
  have hfirst := PacketOut.tame_skipTo 4 [] _ _ hnew.beside hmake
  have hsecond := PacketOut.tame_skipTo 0 [] _ _ hfirst.beside hskip
  have hsize' : o.packet.size = 4 := by
    rw [hsize, hsize1]
    rfl
  have hnonempty : o.packet.data ≠ [] := by
    intro hnil
    have hle := hrep1.capacity_eq
    rw [← hcap, hrep.capacity, hnil, hstale, total_nil] at hle
    omega
  exact ⟨o1, o, hmake, hskip,
    ⟨hsecond.beside, hnonempty, hsize'.ge, by rw [hpool, hcs1, hcs]⟩, hrep, hsize'⟩

/-! ### A run of setters -/

/-- What the statement has after the calls. -/
structure Represents (cursorFlag : UInt8) (calls : List Param) (st : PreparedStatement) : Prop where
  flag : st.cursorFlag = cursorFlag
  idx : st.paramsIdx.toNat = calls.length
  types : st.paramsType = calls.map Param.type
  length_le : st.bitmap.length ≤ (calls.length + 7) / 8
  bits : ∀ i, bitAt st.bitmap i = true ↔ calls[i]? = some .null
  params : Ready st.params

/-- Not the first of eight. -/
def NullsInside (calls : List Param) : Prop := ∀ i, calls[i]? = some .null → i % 8 ≠ 0

theorem getElem?_append_singleton_eq_null {calls : List Param} {p : Param} {i : Nat} :
    (calls ++ [p])[i]? = some .null ↔
      calls[i]? = some .null ∨ (i = calls.length ∧ p = .null) := by
  rcases Nat.lt_trichotomy i calls.length with hlt | heq | hgt
  · rw [List.getElem?_append_left hlt]
    exact ⟨Or.inl, fun h => h.resolve_right fun hr => absurd hr.1 (Nat.ne_of_lt hlt)⟩
  · subst heq
    simp
  · rw [List.getElem?_eq_none (by rw [List.length_append]; exact hgt),
      List.getElem?_eq_none (Nat.le_of_lt hgt)]
    simp [Nat.ne_of_gt hgt]

theorem NullsInside.of_append {calls : List Param} {p : Param} (h : NullsInside (calls ++ [p])) :
    NullsInside calls := fun i hi => h i (getElem?_append_singleton_eq_null.mpr (Or.inl hi))

section

variable {cursorFlag : UInt8} {calls : List Param} {st : PreparedStatement}

/-- What the statement has after the capacity has been ensured. -/
theorem Represents.ensure (h : Represents cursorFlag calls st) (hlt : calls.length + 8 < 2 ^ 32) :
    Represents cursorFlag calls st.ensureParamBitmapCapacity ∧
      st.ensureParamBitmapCapacity.bitmap.length = (calls.length + 7) / 8 ∧
      st.ensureParamBitmapCapacity.params = st.params := by
  have hlen : ((st.paramsIdx + 7) / 8).toNat = (calls.length + 7) / 8 := by
    rw [UInt32.toNat_div, UInt32.toNat_add, h.idx]
    exact congrArg (· / 8) (Nat.mod_eq_of_lt (show calls.length + 7 < 2 ^ 32 by omega))
  have hle := h.length_le
  unfold PreparedStatement.ensureParamBitmapCapacity
  simp only [hlen]
  split
  · have hresized : (resize st.bitmap ((calls.length + 7) / 8)).length =
        (calls.length + 7) / 8 := by
      rw [resize, List.length_append, List.length_take, List.length_replicate]
      omega
    refine ⟨⟨h.flag, h.idx, h.types, hresized.le, fun i => ?_, h.params⟩, hresized, rfl⟩
    exact (Bool.eq_iff_iff.mp (bitAt_resize hle i)).trans (h.bits i)
  · exact ⟨h, by omega, rfl⟩

/-- A setter of a value. -/
theorem Represents.setValue (h : Represents cursorFlag calls st) (hlt : calls.length + 8 < 2 ^ 32)
    {p : Param} (hp : p ≠ .null) {write : Op Unit} (htame : Tame write) {st' : PreparedStatement}
    (hop : PreparedStatement.setValue write p.type st = .ok st') :
    Represents cursorFlag (calls ++ [p]) st' := by
  obtain ⟨o, hwrite, rfl⟩ := of_setValue_ok hop
  have hle := h.length_le
  have hlen : (calls ++ [p]).length = calls.length + 1 := List.length_append
  refine ⟨h.flag, ?_, ?_, ?_, fun i => ?_, h.params.write htame hwrite⟩
  · show (st.paramsIdx + 1).toNat = _
    rw [UInt32.toNat_add, h.idx, hlen]
    exact Nat.mod_eq_of_lt (show calls.length + 1 < 2 ^ 32 by omega)
  · rw [List.map_append, ← h.types]
    rfl
  · show st.bitmap.length ≤ _
    omega
  · rw [getElem?_append_singleton_eq_null]
    refine (h.bits i).trans ⟨Or.inl, fun hor => hor.resolve_right fun hr => hp hr.2⟩

/-- `SetNull` where the byte of the parameter is there. -/
theorem Represents.setNull (h : Represents cursorFlag calls st) (hlt : calls.length + 8 < 2 ^ 32)
    (hinside : calls.length % 8 ≠ 0) :
    ∃ st', st.setNull = .ok st' ∧ Represents cursorFlag (calls ++ [.null]) st' ∧
      st'.params = st.params := by
  obtain ⟨hrep, hlen, hparams⟩ := h.ensure hlt
  have hidx := hrep.idx
  have hbyte : (st.ensureParamBitmapCapacity.paramsIdx / 8).toNat = calls.length / 8 := by
    rw [UInt32.toNat_div, hidx]
    rfl
  have hbit : (st.ensureParamBitmapCapacity.paramsIdx % 8).toNat = calls.length % 8 := by
    rw [UInt32.toNat_mod, hidx]
    rfl
  obtain ⟨b, hb⟩ : ∃ b, st.ensureParamBitmapCapacity.bitmap[calls.length / 8]? = some b :=
    ⟨_, List.getElem?_eq_getElem (show calls.length / 8 <
      st.ensureParamBitmapCapacity.bitmap.length by omega)⟩
  have hset : st.setNull = .ok { st.ensureParamBitmapCapacity with
      bitmap := st.ensureParamBitmapCapacity.bitmap.set (calls.length / 8)
        (b ||| UInt8.ofNat (1 <<< (calls.length % 8)))
      paramsType := st.ensureParamBitmapCapacity.paramsType ++
        [MysqlFieldType.null.code.toUInt16]
      paramsIdx := st.ensureParamBitmapCapacity.paramsIdx + 1 } := by
    simp only [PreparedStatement.setNull, hbyte, hbit, hb]
  refine ⟨_, hset, ⟨hrep.flag, ?_, ?_, ?_, ?_, hrep.params⟩, hparams⟩
  · show (st.ensureParamBitmapCapacity.paramsIdx + 1).toNat = _
    rw [UInt32.toNat_add, hidx, List.length_append]
    exact Nat.mod_eq_of_lt (show calls.length + 1 < 2 ^ 32 by omega)
  · rw [List.map_append, ← hrep.types]
    rfl
  · rw [List.length_append]
    simp only [List.length_set, hlen, List.length_singleton]
    omega
  · intro i
    rw [getElem?_append_singleton_eq_null, ← hrep.bits i]
    simp only [and_true]
    exact bitAt_set hb i

/-- `SetNull` for the first of eight parameters. -/
theorem Represents.setNull_outOfRange (h : Represents cursorFlag calls st)
    (hlt : calls.length + 8 < 2 ^ 32) (hfirst : calls.length % 8 = 0) :
    st.setNull = .error .outOfRange := by
  obtain ⟨hrep, hlen, -⟩ := h.ensure hlt
  have hbyte : (st.ensureParamBitmapCapacity.paramsIdx / 8).toNat = calls.length / 8 := by
    rw [UInt32.toNat_div, hrep.idx]
    rfl
  have hnone : st.ensureParamBitmapCapacity.bitmap[calls.length / 8]? = none :=
    List.getElem?_eq_none (by omega)
  simp only [PreparedStatement.setNull, hbyte, hnone]

/-- One call that returns. -/
theorem Represents.set (h : Represents cursorFlag calls st) (hlt : calls.length + 8 < 2 ^ 32)
    {p : Param} {st' : PreparedStatement} (hop : p.set st = .ok st') :
    Represents cursorFlag (calls ++ [p]) st' ∧ (p = .null → calls.length % 8 ≠ 0) := by
  by_cases hp : p = .null
  · subst hp
    have hinside : calls.length % 8 ≠ 0 := by
      intro hfirst
      have hnull : st.setNull = .ok st' := hop
      rw [h.setNull_outOfRange hlt hfirst] at hnull
      cases hnull
    obtain ⟨st1, hset, hrep, -⟩ := h.setNull hlt hinside
    obtain rfl := Except.ok.inj (hset.symm.trans hop)
    exact ⟨hrep, fun _ => hinside⟩
  · obtain ⟨write, htame, -, heq⟩ := Param.set_eq hp
    rw [heq] at hop
    exact ⟨h.setValue hlt hp htame hop, fun hnull => absurd hnull hp⟩

/-- One call where the byte for a null is there, and room for a value. -/
theorem Represents.set_returns (h : Represents cursorFlag calls st)
    (hlt : calls.length + 8 < 2 ^ 32) {ws : List UInt8} (hholds : Holds st.params ws) {p : Param}
    (hinside : p = .null → calls.length % 8 ≠ 0)
    (hroom : ws.length + 2 * p.bytes.length + 266 ≤ 2 ^ 32) :
    ∃ st', p.set st = .ok st' ∧ Holds st'.params (ws ++ p.bytes) := by
  by_cases hp : p = .null
  · subst hp
    obtain ⟨st', hset, -, hparams⟩ := h.setNull hlt (hinside rfl)
    refine ⟨st', hset, ?_⟩
    rw [hparams, show Param.null.bytes = [] from rfl, List.append_nil]
    exact hholds
  · obtain ⟨write, -, hputs, heq⟩ := Param.set_eq hp
    obtain ⟨o, hwrite, hholds'⟩ := hholds.write h.params (hputs (by omega)) hroom
    exact ⟨_, (heq st).trans (setValue_ok hwrite), hholds'⟩

end

theorem setAll_append (mempool : MemoryPool) (cursorFlag : UInt8) (calls : List Param) (p : Param) :
    setAll mempool cursorFlag (calls ++ [p]) = setAll mempool cursorFlag calls >>= p.set := by
  simp only [setAll, List.foldlM_append, List.foldlM_cons, List.foldlM_nil, bind_pure, bind_assoc]

/-- A new statement. -/
theorem represents_make (mempool : ManagerPool) (cursorFlag : UInt8) :
    ∃ st, setAll mempool.pool cursorFlag [] = .ok st ∧ Represents cursorFlag [] st ∧
      Holds st.params [] := by
  obtain ⟨o1, o, hmake, hskip, hready, hholds⟩ := ready_make mempool
  have hnew : setAll mempool.pool cursorFlag [] = .ok ⟨cursorFlag, [], [], o, 0⟩ := by
    simp only [setAll, PreparedStatement.make, hmake, hskip, liftPacket, bind, Except.bind, pure,
      Except.pure, List.foldlM_nil]
  refine ⟨_, hnew, ⟨rfl, rfl, rfl, Nat.zero_le _, fun i => ?_, hready⟩, hholds⟩
  simp [bitAt]

/-- **A run of setters that returns** has set no first of eight to null. -/
theorem represents_setAll (mempool : ManagerPool) {cursorFlag : UInt8} {calls : List Param}
    (hlt : calls.length < 2 ^ 32 - 8) {st : PreparedStatement}
    (h : setAll mempool.pool cursorFlag calls = .ok st) :
    Represents cursorFlag calls st ∧ NullsInside calls := by
  induction calls using List.reverseRecOn generalizing st with
  | nil =>
      obtain ⟨st', hnew, hrep, -⟩ := represents_make mempool cursorFlag
      obtain rfl := Except.ok.inj (hnew.symm.trans h)
      exact ⟨hrep, fun i hi => by simp at hi⟩
  | append_singleton calls p ih =>
      rw [List.length_append, List.length_singleton] at hlt
      rw [setAll_append] at h
      rcases hbefore : setAll mempool.pool cursorFlag calls with e | st1
      · rw [hbefore] at h
        cases h
      · rw [hbefore] at h
        obtain ⟨hrep, hinside⟩ := ih (by omega) hbefore
        obtain ⟨hrep', hlast⟩ := hrep.set (by omega) (show p.set st1 = .ok st from h)
        refine ⟨hrep', fun i hi => ?_⟩
        rcases getElem?_append_singleton_eq_null.mp hi with hi | ⟨rfl, hp⟩
        · exact hinside i hi
        · exact hlast hp

/-- It does return where the values are not larger than 2 GiB. -/
theorem holds_setAll (mempool : ManagerPool) (cursorFlag : UInt8) {calls : List Param}
    (hlt : calls.length < 2 ^ 32 - 8) (hinside : NullsInside calls)
    (hroom : 2 * (calls.flatMap Param.bytes).length + 266 ≤ 2 ^ 32) :
    ∃ st, setAll mempool.pool cursorFlag calls = .ok st ∧
      Holds st.params (calls.flatMap Param.bytes) := by
  induction calls using List.reverseRecOn with
  | nil =>
      obtain ⟨st, hnew, -, hholds⟩ := represents_make mempool cursorFlag
      exact ⟨st, hnew, hholds⟩
  | append_singleton calls p ih =>
      rw [List.length_append, List.length_singleton] at hlt
      rw [List.flatMap_append, List.flatMap_singleton, List.length_append] at hroom
      obtain ⟨st, hset, hholds⟩ := ih (by omega) hinside.of_append (by omega)
      have hrep := (represents_setAll mempool (show calls.length < 2 ^ 32 - 8 by omega) hset).1
      obtain ⟨st', hset', hholds'⟩ := hrep.set_returns (by omega) hholds (p := p)
        (fun hp => hinside _ (getElem?_append_singleton_eq_null.mpr (Or.inr ⟨rfl, hp⟩))) (by omega)
      refine ⟨st', ?_, ?_⟩
      · rw [setAll_append, hset]
        exact hset'
      · rwa [List.flatMap_append, List.flatMap_singleton]

end Jengine.Dbo.Internal
