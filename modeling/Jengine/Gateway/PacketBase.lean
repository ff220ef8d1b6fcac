import Jengine.Memory.MemoryPool
import Jengine.Lib.LittleEndian

/-!
# Packets over memory chunks

`Packet`, `PacketInBase` and `PacketOutBase` (`base/gateway/packet_base.h`).  A
packet is a sequence of views of pool chunks with a cursor kept at two levels:
`pos_` counts bytes from the start of the packet, `pos_y_` is the chunk the
cursor is in, and every chunk view has a cursor of its own.  A value is read
or written by walking over as many chunks as it straddles.

`pos_`, `size_` and `capacity_` are `uint32_t`; every sum the source forms is
reduced modulo `2 ^ 32` here.  A failed assertion, the exception of `GetByte`
and a loop that never ends are the three ways an operation does not return.
-/

namespace Jengine.Gateway

open Jengine.Lib Jengine.Memory RefMemoryChunk

/-- `uint32_t` arithmetic. -/
def u32 (n : Nat) : Nat := n % 2 ^ 32

/-- Why an operation on a packet did not return. -/
inductive Fault where
  /-- A failed `assert`. -/
  | assertion
  /-- `Exception("Packet::GetByte no more data")`. -/
  | noMoreData
  /-- The growth loop of `PutByte` does not end. -/
  | diverges
deriving DecidableEq, Repr

/-- `Packet`. -/
structure Packet where
  data : List RefMemoryChunk
  size : Nat
  pos : Nat
  posY : Nat
  capacity : Nat
deriving DecidableEq, Repr

namespace Packet

def empty : Packet := ⟨[], 0, 0, 0, 0⟩

/-- `UpdateSize`. -/
def updateSize (pk : Packet) : Packet :=
  if pk.size < pk.pos then { pk with size := pk.pos } else pk

/-- `UpdateCapacity`: the counts are summed up in a `uint32_t`. -/
def updateCapacity (pk : Packet) : Packet := { pk with capacity := u32 (total pk.data) }

/-- The loop of `SkipTo`: place every chunk's cursor, and count the chunks that
    lie wholly before `pos`. -/
def skipChunks : Nat → List RefMemoryChunk → List RefMemoryChunk × Nat
  | _, [] => ([], 0)
  | pos, v :: vs =>
      if pos = 0 then
        let (r, y) := skipChunks 0 vs
        (v.skipTo 0 :: r, y)
      else if pos < v.count then
        let (r, y) := skipChunks 0 vs
        (v.skipTo pos :: r, y)
      else
        let (r, y) := skipChunks (pos - v.count) vs
        (v.skipTo v.count :: r, y + 1)

/-- `SkipTo`. -/
def skipTo (pk : Packet) (pos : Nat) : Except Fault Packet :=
  if pos ≤ pk.capacity then
    let (r, y) := skipChunks pos pk.data
    .ok { updateSize { pk with pos := pos } with data := r, posY := y }
  else .error .assertion

end Packet

/-! ### Reading -/

/-- An operation on a received packet: it may throw, and it moves the cursor. -/
abbrev PacketIn.Op := StateT Packet (Except Fault)

/-- The loop of `GetByte` over the chunks from `pos_y_` on: the bytes copied, the
    chunks with their cursors moved, and the number of chunks used up.  A chunk
    with bytes left after `Read` has satisfied the whole request, so the loop
    goes on only to the next chunk. -/
def readChunks (m : Bytes) : Nat → List RefMemoryChunk →
    List UInt8 × List RefMemoryChunk × Nat
  | _, [] => ([], [], 0)
  | count, v :: vs =>
      if count = 0 then ([], v :: vs, 0)
      else
        let (bs, v') := v.read m count
        if v'.freeCount = 0 then
          let (bs', vs', y) := readChunks m (count - bs.length) vs
          (bs ++ bs', v' :: vs', y + 1)
        else (bs, v' :: vs, 0)

namespace PacketIn

/-- The constructor `PacketInBase(packet_data_t&)`. -/
def make (data : List RefMemoryChunk) : Except Fault Packet :=
  let pk := Packet.updateCapacity { Packet.empty with data := data }
  Packet.skipTo { pk with size := pk.capacity } 0

/-- `GetByte`. -/
def getByte (m : Bytes) (count : Nat) : Op (List UInt8) := fun pk =>
  if pk.size < u32 (pk.pos + count) then .error .noMoreData
  else
    let (bs, vs, y) := readChunks m count (pk.data.drop pk.posY)
    .ok (bs, { pk with
      data := pk.data.take pk.posY ++ vs
      pos := u32 (pk.pos + count)
      posY := pk.posY + y })

/-- `SkipTo` on a received packet. -/
def skipTo (pos : Nat) : Op Unit := fun pk => do
  let pk' ← pk.skipTo pos
  return ((), pk')

/-- An unsigned integer of `n` bytes: the body shared by `ReadByte`, `ReadUShort`,
    `ReadUInt`, `ReadULong` and, on the bit pattern, by the signed and the
    floating-point readers. -/
def readInt (m : Bytes) (n : Nat) : Op Nat := do
  let bs ← getByte m n
  return ofLE bs

def readByte (m : Bytes) : Op UInt8 := UInt8.ofNat <$> readInt m 1
def readSByte (m : Bytes) : Op Int8 := (fun n => Int8.ofBitVec (.ofNat 8 n)) <$> readInt m 1
def readShort (m : Bytes) : Op Int16 := (fun n => Int16.ofBitVec (.ofNat 16 n)) <$> readInt m 2
def readUShort (m : Bytes) : Op UInt16 := UInt16.ofNat <$> readInt m 2
def readInt32 (m : Bytes) : Op Int32 := (fun n => Int32.ofBitVec (.ofNat 32 n)) <$> readInt m 4
def readUInt (m : Bytes) : Op UInt32 := UInt32.ofNat <$> readInt m 4
def readLong (m : Bytes) : Op Int64 := (fun n => Int64.ofBitVec (.ofNat 64 n)) <$> readInt m 8
def readULong (m : Bytes) : Op UInt64 := UInt64.ofNat <$> readInt m 8

/-- `ReadFloat`, as the bit pattern. -/
def readFloat (m : Bytes) : Op UInt32 := readUInt m

/-- `ReadDouble`, as the bit pattern. -/
def readDouble (m : Bytes) : Op UInt64 := readULong m

/-- `ReadBoolean`: only the byte 1 is `true`. -/
def readBoolean (m : Bytes) : Op Bool := (fun b => b == 1) <$> readByte m

/-- `ReadString`. -/
def readString (m : Bytes) : Op (List UInt8) := do
  let strlen ← readUShort m
  getByte m strlen.toNat

/-- `ReadBits`. -/
def readBits (m : Bytes) : Op (List UInt8) := do
  let bitslen ← readUShort m
  getByte m bitslen.toNat

end PacketIn

/-! ### Writing -/

/-- A packet under construction together with the pool it grows from. -/
structure PacketOut.Out where
  pool : MemoryPool
  packet : Packet

/-- An operation on a packet under construction. -/
abbrev PacketOut.Op := StateT PacketOut.Out (Except Fault)

/-- The loop of `PutByte` over the chunks from `pos_y_` on. -/
def writeChunks : Bytes → List UInt8 → List RefMemoryChunk →
    Bytes × List RefMemoryChunk × Nat
  | m, _, [] => (m, [], 0)
  | m, src, v :: vs =>
      if src = [] then (m, v :: vs, 0)
      else
        let (m', v') := v.write m src
        if v'.freeCount = 0 then
          let (m'', vs', y) := writeChunks m' (src.drop (v.moved src.length)) vs
          (m'', v' :: vs', y + 1)
        else (m', v' :: vs, 0)

namespace PacketOut

/-- `AquireMemory`: ten bytes more than asked for. -/
def aquireMemory (o : Out) (needBytes : Nat) : Out :=
  let (vs, pool) := o.pool.aquireByByteNeed (u32 (needBytes + 10))
  ⟨pool, Packet.updateCapacity { o.packet with data := o.packet.data ++ vs }⟩

/-- The growth loop of `PutByte`.  `capacity_` is a `uint32_t` that grows by the
    same amount in every pass, so a run of `2 ^ 32` passes repeats for ever. -/
def grow : Nat → Nat → Out → Except Fault Out
  | 0, _, _ => .error .diverges
  | fuel + 1, count, o =>
      if o.packet.capacity < u32 (o.packet.pos + count) then grow fuel count (aquireMemory o count)
      else .ok o

/-- `PutByte`. -/
def putByte (src : List UInt8) : Op Unit := fun o => do
  let o ← grow (2 ^ 32) src.length o
  let pk := Packet.updateSize { o.packet with pos := u32 (o.packet.pos + src.length) }
  let (m, vs, y) := writeChunks o.pool.mem src (pk.data.drop pk.posY)
  return ((), ⟨{ o.pool with mem := m },
    { pk with data := pk.data.take pk.posY ++ vs, posY := pk.posY + y }⟩)

/-- `SkipTo` on a packet under construction. -/
def skipTo (pos : Nat) : Op Unit := fun o => do
  let pk ← o.packet.skipTo pos
  return ((), { o with packet := pk })

def writeByte (v : UInt8) : Op Unit := putByte (toLE 1 v.toNat)
def writeSByte (v : Int8) : Op Unit := putByte (toLE 1 v.toBitVec.toNat)
def writeShort (v : Int16) : Op Unit := putByte (toLE 2 v.toBitVec.toNat)
def writeUShort (v : UInt16) : Op Unit := putByte (toLE 2 v.toNat)
def writeInt (v : Int32) : Op Unit := putByte (toLE 4 v.toBitVec.toNat)
def writeUInt (v : UInt32) : Op Unit := putByte (toLE 4 v.toNat)
def writeLong (v : Int64) : Op Unit := putByte (toLE 8 v.toBitVec.toNat)
def writeULong (v : UInt64) : Op Unit := putByte (toLE 8 v.toNat)

/-- `WriteFloat`, on the bit pattern. -/
def writeFloat (v : UInt32) : Op Unit := writeUInt v

/-- `WriteDouble`, on the bit pattern. -/
def writeDouble (v : UInt64) : Op Unit := writeULong v

/-- `WriteBoolean`. -/
def writeBoolean (v : Bool) : Op Unit := if v then writeByte 1 else writeByte 0

/-- `WriteString(const std::string&)`: the length goes into a `uint16_t`, the
    bytes are counted by a `uint32_t`. -/
def writeString (str : List UInt8) : Op Unit := do
  writeUShort (UInt16.ofNat str.length)
  putByte (str.take (u32 str.length))

/-- `WriteBits`: the length is a `uint16_t` parameter. -/
def writeBits (v : List UInt8) : Op Unit := do
  writeUShort (UInt16.ofNat v.length)
  putByte (v.take (UInt16.ofNat v.length).toNat)

/-- The loop of `FetchData`. -/
def fetchChunks : Nat → List RefMemoryChunk → List RefMemoryChunk
  | _, [] => []
  | s, v :: vs =>
      if s = 0 then []
      else if s < v.count then [v.shrinkCount (v.count - s)]
      else v :: fetchChunks (s - v.count) vs

/-- `FetchData`: views of the first `size_` bytes. -/
def fetchData (pk : Packet) : List RefMemoryChunk := fetchChunks pk.size pk.data

end PacketOut

end Jengine.Gateway
