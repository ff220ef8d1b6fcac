import Jengine.Cluster.Message
import Jengine.Gateway.Overwrite
import Jengine.Gateway.Packet

/-!
# Messages under construction

`MessageOut` (`base/cluster/message.h`) leaves sixteen bytes for its head.  Every
`SendMessage` writes them again, into the chunks that the message has had from
the start, and hands out views of these chunks.
-/

namespace Jengine.Cluster

open Jengine.Lib Jengine.Memory RefMemoryChunk Jengine.Gateway

namespace Message

/-- The sixteen bytes of a head. -/
def head (msg : Message) : List UInt8 :=
  toLE 4 (u32 (headSize + msg.payload.length)) ++ (toLE 2 msg.code.toNat ++
    (encodeMailboxID msg.sender ++ (encodeMailboxID msg.receiver ++ toLE 2 msg.session.toNat)))

theorem toFrame_eq (msg : Message) : msg.toFrame = msg.head ++ msg.payload := by
  simp only [toFrame, head, List.append_assoc]

theorem length_head (msg : Message) : msg.head.length = headSize := by
  simp [head, encodeMailboxID, headSize]

/-- The ids of the head have 24 bits for the number of a mailbox. -/
def Fits (msg : Message) : Prop :=
  msg.sender.pid.toNat < 2 ^ 24 ∧ msg.receiver.pid.toNat < 2 ^ 24

instance (msg : Message) : Decidable msg.Fits := by unfold Fits; infer_instance

theorem ofFrame_toFrame_of_fits {msg : Message} (h : msg.Fits) : ofFrame msg.toFrame = msg := by
  rw [ofFrame_toFrame, wire, MailboxID.parse_valueID h.1, MailboxID.parse_valueID h.2]

end Message

structure MessageOut where
  out : PacketOut.Out
  code : UInt16
  /-- `from()`. -/
  sender : MailboxID
  /-- `to()`. -/
  receiver : MailboxID
  session : UInt16

namespace MessageOut

open PacketOut

/-- The constructor. -/
def make (code : UInt16) (approxSize : Nat) (mempool : MemoryPool) : Except Fault MessageOut := do
  let approx := if approxSize < Message.headSize then Message.headSize else approxSize
  let (_, out) ← skipTo Message.headSize (aquireMemory ⟨mempool, Packet.empty⟩ approx)
  return ⟨out, code, MailboxID.nullID, MailboxID.nullID, 0⟩

/-- What `WriteHead` writes after `SkipTo(0)`. -/
def headFields (size : Nat) (code : UInt16) (sender receiver : MailboxID) (session : UInt16) :
    Op Unit := do
  writeUInt (UInt32.ofNat size)
  writeUShort code
  writeUInt sender.valueID
  writeUInt receiver.valueID
  writeUShort session

/-- `WriteHead`. -/
def writeHead (p : MessageOut) : Except Fault MessageOut := do
  let (_, out) ← skipTo 0 p.out
  let (_, out) ← headFields out.packet.size p.code p.sender p.receiver p.session out
  return { p with out := out }

/-- The message that a `MessageOut` holds. -/
def message (p : MessageOut) : Message where
  code := p.code
  sender := p.sender
  receiver := p.receiver
  session := p.session
  payload := (bytesOf p.out.pool.mem (fetchData p.out.packet)).drop Message.headSize

/-- A message that has been filled with a payload. -/
structure Holds (p : MessageOut) (payload : List UInt8) : Prop where
  rep : ∃ ws, Rep p.out ws
  chunksize : 0 < p.out.pool.chunksize
  size : p.out.packet.size = Message.headSize + payload.length
  room : Message.headSize + payload.length ≤ p.out.packet.capacity
  bytes : ((bytesOf p.out.pool.mem p.out.packet.data).drop Message.headSize).take payload.length =
    payload

theorem Holds.payload_eq {p : MessageOut} {payload : List UInt8} (h : Holds p payload) :
    p.message.payload = payload := by
  show (bytesOf p.out.pool.mem (fetchData p.out.packet)).drop Message.headSize = payload
  rw [fetchData, bytesOf_fetchChunks, h.size, List.drop_take, Nat.add_sub_cancel_left]
  exact h.bytes

theorem overwrites_headFields (size : Nat) (code : UInt16) (sender receiver : MailboxID)
    (session : UInt16) : Overwrites (headFields size code sender receiver session)
      (toLE 4 (UInt32.ofNat size).toNat ++ (toLE 2 code.toNat ++ (encodeMailboxID sender ++
        (encodeMailboxID receiver ++ toLE 2 session.toNat)))) :=
  (overwrites_putByte (by simp)).seq ((overwrites_putByte (by simp)).seq
    ((overwrites_putByte (by simp)).seq ((overwrites_putByte (by simp)).seq
      (overwrites_putByte (by simp)))))

/-- `WriteHead` replaces the first sixteen bytes of the packet, in place. -/
theorem writeHead_spec {p : MessageOut} {payload : List UInt8} (h : Holds p payload) :
    ∃ out, p.writeHead = .ok { p with out := out } ∧ Holds { p with out := out } payload ∧
      out.packet.data.map region = p.out.packet.data.map region ∧
      bytesOf out.pool.mem out.packet.data =
        p.message.head ++ (bytesOf p.out.pool.mem p.out.packet.data).drop Message.headSize ∧
      ∀ c, c ∉ cells p.out.packet.data → out.pool.mem c.1 c.2 = p.out.pool.mem c.1 c.2 := by
  obtain ⟨ws, hrep⟩ := h.rep
  have hroom := h.room
  have hsize := h.size
  obtain ⟨r, y, hr⟩ : ∃ r y, Packet.skipChunks 0 p.out.packet.data = (r, y) := ⟨_, _, rfl⟩
  obtain ⟨o1, hskip, hrep1, hunw1, hsize1, hcap1, hpool1⟩ := skipTo_spec hrep (Nat.zero_le _)
  have hregion1 : o1.packet.data.map region = p.out.packet.data.map region := by
    have hspec := (skipChunks_spec p.out.pool.mem p.out.packet.data 0 (Nat.zero_le _)).2.2
    rw [hr] at hspec
    simp only [PacketOut.skipTo, Packet.skipTo, if_pos (Nat.zero_le _), hr, bind, Except.bind, pure,
      Except.pure, Except.ok.injEq, Prod.mk.injEq, true_and] at hskip
    rw [← hskip]
    exact hspec
  rw [List.take_zero] at hrep1
  rw [← hrep.bytesOf_data, List.drop_zero] at hunw1
  rw [Nat.max_eq_left (Nat.zero_le _)] at hsize1
  have hlen := p.message.length_head
  have hhead : p.message.head = toLE 4 (UInt32.ofNat o1.packet.size).toNat ++
      (toLE 2 p.code.toNat ++ (encodeMailboxID p.sender ++ (encodeMailboxID p.receiver ++
        toLE 2 p.session.toNat))) := by
    rw [Message.head, h.payload_eq, hsize1, hsize, UInt32.toNat_ofNat']
    rfl
  rw [hhead] at hlen ⊢
  have hlt := hrep.capacity_lt
  obtain ⟨o2, hop, hrep2, hunw2, hsize2, hcs2, hcap2, hregion2, hframe2⟩ :=
    overwrites_headFields o1.packet.size p.code p.sender p.receiver p.session o1 [] hrep1
      (by rw [hpool1]; exact h.chunksize)
      (by rw [hlen, List.length_nil]; omega)
  rw [hlen] at hunw2 hsize2
  simp only [List.length_nil, Nat.zero_add, List.nil_append] at hsize2 hrep2
  have hbytes := hrep2.bytesOf_data
  rw [hunw2, hunw1] at hbytes
  refine ⟨o2, ?_, ⟨⟨_, hrep2⟩, ?_, ?_, ?_, ?_⟩, hregion2.trans hregion1, hbytes, ?_⟩
  · simp only [writeHead, hskip, hop, bind, Except.bind, pure, Except.pure]
  · rw [hcs2, hpool1]
    exact h.chunksize
  · rw [hsize2, hsize1, hsize]
    omega
  · rw [hcap2, hcap1]
    exact hroom
  · rw [hbytes, List.drop_left' hlen]
    exact h.bytes
  · intro c hc
    rw [hframe2 c (by rw [cells_of_region_eq hregion1]; exact hc), hpool1]

/-- A byte that some view maps stays as it is unless it is a byte of the head and the head
    has another value there. -/
theorem writeHead_same {p : MessageOut} {out : PacketOut.Out}
    (hregion : out.packet.data.map region = p.out.packet.data.map region)
    (hbytes : bytesOf out.pool.mem out.packet.data =
      p.message.head ++ (bytesOf p.out.pool.mem p.out.packet.data).drop Message.headSize)
    (hframe : ∀ c, c ∉ cells p.out.packet.data → out.pool.mem c.1 c.2 = p.out.pool.mem c.1 c.2)
    {c : Nat × Nat} (hsame : ∀ e ∈ (cells p.out.packet.data).zip p.message.head, e.1 = c →
      e.2 = p.out.pool.mem c.1 c.2) : out.pool.mem c.1 c.2 = p.out.pool.mem c.1 c.2 := by
  by_cases hc : c ∈ cells p.out.packet.data
  · obtain ⟨k, hk⟩ := List.mem_iff_getElem?.mp hc
    have hnew : (bytesOf out.pool.mem out.packet.data)[k]? = some (out.pool.mem c.1 c.2) := by
      rw [bytesOf_eq_cells, cells_of_region_eq hregion, List.getElem?_map, hk, Option.map_some]
    have hold : (bytesOf p.out.pool.mem p.out.packet.data)[k]? =
        some (p.out.pool.mem c.1 c.2) := by
      rw [bytesOf_eq_cells, List.getElem?_map, hk, Option.map_some]
    have hlen := p.message.length_head
    rw [hbytes] at hnew
    by_cases hlt : k < Message.headSize
    · rw [List.getElem?_append_left (by omega)] at hnew
      have hmem : (c, out.pool.mem c.1 c.2) ∈ (cells p.out.packet.data).zip p.message.head :=
        List.mem_iff_getElem?.mpr ⟨k, List.getElem?_zip_eq_some.mpr ⟨hk, hnew⟩⟩
      exact hsame _ hmem rfl
    · rw [List.getElem?_append_right (by omega), hlen, List.getElem?_drop,
        Nat.add_sub_cancel' (by omega), hold] at hnew
      exact (Option.some.inj hnew).symm
  · exact hframe c hc

/-- What the constructor and then some writers leave is a message filled with a payload. -/
theorem make_holds {mempool : MemoryPool} (code : UInt16) (approx : Nat) (hinv : mempool.Inv [])
    (hcs : 0 < mempool.chunksize) (happrox : approx + 26 + mempool.chunksize < 2 ^ 32)
    {op : Op Unit} {payload : List UInt8} (hop : Appends op payload)
    (hroom : payload.length + 65561 + mempool.chunksize ≤ 2 ^ 32) :
    ∃ p out, make code approx mempool = .ok p ∧ op p.out = .ok ((), out) ∧
      Holds { p with out := out } payload := by
  obtain ⟨n, hn, hbig, hsmall⟩ : ∃ n, n = (if approx < Message.headSize then Message.headSize
      else approx) ∧ Message.headSize ≤ n ∧ n + 10 + mempool.chunksize < 2 ^ 32 := by
    refine ⟨_, rfl, ?_, ?_⟩
    · split_ifs <;> omega
    · show (if approx < 16 then 16 else approx) + 10 + mempool.chunksize < 2 ^ 32
      split <;> omega
  have hcount := mempool.calculateChunkCount_mul_lt (n + 10) hcs
  obtain ⟨h1, h2, h3, h4, -⟩ := aquireMemory_empty n hinv hcs (by omega) (by omega)
  obtain ⟨o1, hskip, hrep1, -, hsize1, hcap1, hpool1⟩ :=
    skipTo_spec h1 (show Message.headSize ≤ _ by omega)
  have hlen : (List.take Message.headSize
      ([] ++ unwritten (aquireMemory ⟨mempool, Packet.empty⟩ n))).length = Message.headSize := by
    have hcap := h1.capacity_eq
    rw [List.length_nil] at hcap
    rw [List.length_take, List.nil_append]
    omega
  have hhead : Message.headSize = 16 := rfl
  obtain ⟨o2, hop2, hrep2, -, hsize2, hcs2, -⟩ := hop o1 _ hrep1
    (by rw [hpool1, h4]; exact hcs) (Or.inr (by rw [hlen, hpool1, h4]; omega))
  refine ⟨⟨o1, code, MailboxID.nullID, MailboxID.nullID, 0⟩, o2, ?_, hop2, ⟨⟨_, hrep2⟩, ?_, ?_, ?_,
    ?_⟩⟩
  · simp only [make, ← hn, hskip, bind, Except.bind, pure, Except.pure]
  · rw [hcs2, hpool1, h4]
    exact hcs
  · rw [hsize2, hsize1, h3, hlen]
    omega
  · have hcap2 := hrep2.capacity_eq
    rw [List.length_append, hlen] at hcap2
    show _ ≤ o2.packet.capacity
    omega
  · rw [hrep2.bytesOf_data, List.append_assoc, List.drop_left' hlen]
    exact List.take_left

end MessageOut

end Jengine.Cluster
