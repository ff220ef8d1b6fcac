import Jengine.Gateway.PacketLength

/-!
# Packets of the robot

The robot has a packet class of its own, `WorldPacket`
(`robot/utility/world_packet.h`): a byte vector with a cursor that starts
behind the room for the head, and a head that is filled in when the packet is
sent.  `Client::SendPacket` (`robot/client.h`) queues the bytes, and the gate
server's `UserClient::OnReceive` takes them off the stream.

The two sides disagree on what the length field counts: the robot sends the
number of bytes behind the head, the server expects the head to be counted.
-/

namespace Jengine.Robot

open Jengine.Lib Jengine.Memory RefMemoryChunk Jengine.Gateway

/-- `WorldPacket`. -/
structure WorldPacket where
  storage : List UInt8
  pos : Nat
  opCode : UInt16
deriving DecidableEq, Repr

/-- `std::vector::resize`. -/
def resize (bs : List UInt8) (n : Nat) : List UInt8 :=
  bs.take n ++ List.replicate (n - bs.length) 0

namespace WorldPacket

/-- `HEAD_SIZE`. -/
def headSize : Nat := 10

def skipTo (p : WorldPacket) (pos : Nat) : WorldPacket := { p with pos := pos }

/-- The constructor; the size is only reserved. -/
def make (opCode _size : UInt16) : WorldPacket := skipTo ⟨[], 0, opCode⟩ headSize

/-- `PutByte`. -/
def putByte (p : WorldPacket) (src : List UInt8) : WorldPacket :=
  let storage :=
    if p.storage.length ≤ p.pos + src.length then resize p.storage (p.pos + src.length)
    else p.storage
  { p with
    storage := storage.take p.pos ++ src ++ storage.drop (p.pos + src.length)
    pos := p.pos + src.length }

def writeUShort (p : WorldPacket) (val : UInt16) : WorldPacket := p.putByte (toLE 2 val.toNat)
def writeUInt (p : WorldPacket) (val : UInt32) : WorldPacket := p.putByte (toLE 4 val.toNat)
def writeByte (p : WorldPacket) (val : Int8) : WorldPacket :=
  p.putByte (toLE 1 val.toBitVec.toNat)

/-- `WriteString`: the length is a `uint16_t`, and so is the number of bytes copied. -/
def writeString (p : WorldPacket) (src : List UInt8) : WorldPacket :=
  (p.putByte (toLE 2 (UInt16.ofNat src.length).toNat)).putByte
    (src.take (UInt16.ofNat src.length).toNat)

/-- `WriteHead`. -/
def writeHead (p : WorldPacket) : WorldPacket :=
  let p := p.skipTo 0
  let p := if p.storage.length < headSize then { p with storage := resize p.storage headSize } else p
  let p := p.writeUShort 28380
  let p := p.writeUShort (UInt16.ofNat (p.storage.length - headSize))
  let p := p.writeUShort p.opCode
  let p := p.writeUShort 0
  p.writeUShort 1

/-- `GetSize`. -/
def getSize (p : WorldPacket) : UInt16 := UInt16.ofNat p.storage.length

/-- What `Client::SendPacket` queues. -/
def sent (p : WorldPacket) : List UInt8 := p.writeHead.storage.take p.writeHead.getSize.toNat

end WorldPacket

/-- A field of a packet. -/
inductive Field where
  | ushort (val : UInt16)
  | uint (val : UInt32)
  | byte (val : Int8)
  | string (src : List UInt8)
deriving DecidableEq, Repr

namespace Field

/-- The call that writes a field. -/
def write (p : WorldPacket) : Field → WorldPacket
  | ushort val => p.writeUShort val
  | uint val => p.writeUInt val
  | byte val => p.writeByte val
  | string src => p.writeString src

/-- The bytes of a field. -/
def bytes : Field → List UInt8
  | ushort val => toLE 2 val.toNat
  | uint val => toLE 4 val.toNat
  | byte val => toLE 1 val.toBitVec.toNat
  | string src =>
      toLE 2 (UInt16.ofNat src.length).toNat ++ src.take (UInt16.ofNat src.length).toNat

end Field

/-- A packet with the given fields. -/
def filled (opCode size : UInt16) (fields : List Field) : WorldPacket :=
  fields.foldl Field.write (WorldPacket.make opCode size)

def payload (fields : List Field) : List UInt8 := fields.flatMap Field.bytes

/-! ### What is sent -/

/-- The packet is empty, or has its payload behind room for the head. -/
structure Holds (p : WorldPacket) (body : List UInt8) : Prop where
  pos : p.pos = WorldPacket.headSize + body.length
  storage : p.storage = [] ∧ body = [] ∨
    p.storage = List.replicate WorldPacket.headSize 0 ++ body

theorem Holds.putByte {p : WorldPacket} {body : List UInt8} (h : Holds p body)
    (src : List UInt8) :
    Holds (p.putByte src) (body ++ src) ∧ (p.putByte src).opCode = p.opCode := by
  have hpos := h.pos
  refine ⟨⟨?_, Or.inr ?_⟩, rfl⟩
  · simp only [WorldPacket.putByte, hpos, List.length_append]
    omega
  · have hle : p.storage.length ≤ p.pos + src.length := by
      rcases h.storage with ⟨hnil, -⟩ | hst
      · simp [hnil]
      · rw [hst, List.length_append, List.length_replicate, hpos]
        omega
    have hresize : (resize p.storage (p.pos + src.length)).length = p.pos + src.length := by
      simp only [resize, List.length_append, List.length_take, List.length_replicate]
      omega
    have htake : (resize p.storage (p.pos + src.length)).take p.pos =
        List.replicate WorldPacket.headSize 0 ++ body := by
      rcases h.storage with ⟨hnil, hbody⟩ | hst
      · rw [hnil, hpos, hbody]
        simp [resize, WorldPacket.headSize]
      · have hlen : p.storage.length = p.pos := by
          rw [hst, List.length_append, List.length_replicate, hpos]
        have hall : p.storage.take (p.pos + src.length) = p.storage :=
          List.take_of_length_le (by omega)
        rw [resize, hall, List.take_left' hlen, hst]
    simp only [WorldPacket.putByte, if_pos hle, htake]
    rw [List.drop_eq_nil_of_le (Nat.le_of_eq hresize), List.append_nil, List.append_assoc]

theorem Holds.write {p : WorldPacket} {body : List UInt8} (h : Holds p body) (f : Field) :
    Holds (f.write p) (body ++ f.bytes) ∧ (f.write p).opCode = p.opCode := by
  cases f with
  | string src =>
      obtain ⟨hlen, hop⟩ := h.putByte (toLE 2 (UInt16.ofNat src.length).toNat)
      obtain ⟨htext, hop'⟩ := hlen.putByte (src.take (UInt16.ofNat src.length).toNat)
      rw [List.append_assoc] at htext
      exact ⟨htext, hop'.trans hop⟩
  | _ => exact h.putByte _

theorem holds_filled (opCode size : UInt16) (fields : List Field) :
    Holds (filled opCode size fields) (payload fields) ∧
      (filled opCode size fields).opCode = opCode := by
  -- over every prefix of the fields, from any packet
  have hall : ∀ (fields : List Field) (p : WorldPacket) (body : List UInt8), Holds p body →
      Holds (fields.foldl Field.write p) (body ++ payload fields) ∧
        (fields.foldl Field.write p).opCode = p.opCode := by
    intro fields
    induction fields with
    | nil =>
        intro p body h
        rw [payload, List.flatMap_nil, List.append_nil]
        exact ⟨h, rfl⟩
    | cons f fields ih =>
        intro p body h
        obtain ⟨hf, hop⟩ := h.write f
        obtain ⟨hrest, hop'⟩ := ih (f.write p) (body ++ f.bytes) hf
        rw [List.append_assoc] at hrest
        exact ⟨hrest, hop'.trans hop⟩
  exact hall fields (WorldPacket.make opCode size) [] ⟨rfl, Or.inl ⟨rfl, rfl⟩⟩

/-- Writing over as many bytes as are already there. -/
theorem putByte_over (a x b src : List UInt8) (opCode : UInt16) (hlen : x.length = src.length) :
    (⟨a ++ (x ++ b), a.length, opCode⟩ : WorldPacket).putByte src =
      ⟨a ++ src ++ b, (a ++ src).length, opCode⟩ := by
  have hfit : (if (a ++ (x ++ b)).length ≤ a.length + src.length then
      resize (a ++ (x ++ b)) (a.length + src.length) else a ++ (x ++ b)) = a ++ (x ++ b) := by
    split
    · rename_i hle
      have hall : (a ++ (x ++ b)).length = a.length + src.length := by
        rw [List.length_append, List.length_append] at hle ⊢
        omega
      rw [resize, ← hall, List.take_length, Nat.sub_self, List.replicate_zero, List.append_nil]
    · rfl
  simp only [WorldPacket.putByte, hfit]
  rw [List.take_left, ← List.append_assoc, ← hlen, ← List.length_append, List.drop_left,
    List.length_append, List.length_append, hlen]

theorem writeUShort_over (a b : List UInt8) (val opCode : UInt16) :
    (⟨a ++ ([0, 0] ++ b), a.length, opCode⟩ : WorldPacket).writeUShort val =
      ⟨a ++ toLE 2 val.toNat ++ b, (a ++ toLE 2 val.toNat).length, opCode⟩ :=
  putByte_over a [0, 0] b _ opCode (length_toLE 2 _).symm

/-- The head as the robot fills it in: the length counts what follows the head. -/
theorem storage_writeHead {p : WorldPacket} {body : List UInt8} (h : Holds p body) :
    p.writeHead.storage = headBytes (UInt16.ofNat body.length) p.opCode 1 ++ body := by
  have hstart : (if (p.skipTo 0).storage.length < WorldPacket.headSize then
      { p.skipTo 0 with storage := resize (p.skipTo 0).storage WorldPacket.headSize }
      else p.skipTo 0) =
      ⟨[] ++ ([0, 0] ++ ([0, 0] ++ ([0, 0] ++ ([0, 0] ++ ([0, 0] ++ body))))), 0, p.opCode⟩ := by
    rcases h.storage with ⟨hnil, hbody⟩ | hst
    · simp only [WorldPacket.skipTo, hnil, hbody]
      rfl
    · have hlong : ¬ (p.skipTo 0).storage.length < WorldPacket.headSize := by
        show ¬ p.storage.length < WorldPacket.headSize
        rw [hst, List.length_append, List.length_replicate]
        omega
      rw [if_neg hlong]
      simp only [WorldPacket.skipTo, hst]
      rfl
  have hident := writeUShort_over [] ([0, 0] ++ ([0, 0] ++ ([0, 0] ++ ([0, 0] ++ body))))
    28380 p.opCode
  rw [List.length_nil] at hident
  have hsize : ([] ++ toLE 2 (28380 : UInt16).toNat ++
      ([0, 0] ++ ([0, 0] ++ ([0, 0] ++ ([0, 0] ++ body))))).length - WorldPacket.headSize =
      body.length := by
    simp only [List.length_append, List.length_cons, List.length_nil, length_toLE,
      WorldPacket.headSize]
    omega
  simp only [WorldPacket.writeHead, hstart, hident, hsize, writeUShort_over]
  simp only [headBytes, List.nil_append, List.append_assoc]
  rfl

theorem sent_eq {p : WorldPacket} {body : List UInt8} (h : Holds p body) :
    p.sent = (headBytes (UInt16.ofNat body.length) p.opCode 1 ++ body).take
      ((WorldPacket.headSize + body.length) % 2 ^ 16) := by
  have hlen : p.writeHead.getSize.toNat = (WorldPacket.headSize + body.length) % 2 ^ 16 := by
    rw [WorldPacket.getSize, storage_writeHead h, List.length_append, length_headBytes]
    exact UInt16.toNat_ofNat'
  rw [WorldPacket.sent, hlen, storage_writeHead h]

/-! ### What the gate server makes of it -/

/-- What is sent is too short for a head, or its length field leaves the head out. -/
theorem sent_short {p : WorldPacket} {body : List UInt8} (h : Holds p body) :
    p.sent.length < Gateway.headSize ∨ lengthOf p.sent + Gateway.headSize = p.sent.length := by
  have hsent := sent_eq h
  have hlen : p.sent.length = (WorldPacket.headSize + body.length) % 2 ^ 16 := by
    rw [hsent, List.length_take, List.length_append, length_headBytes]
    exact Nat.min_eq_left (Nat.mod_le _ _)
  by_cases hshort : p.sent.length < Gateway.headSize
  · exact Or.inl hshort
  · right
    have hge : Gateway.headSize ≤ p.sent.length := Nat.le_of_not_lt hshort
    have hfield : lengthOf p.sent = body.length % 2 ^ 16 := by
      rw [← lengthOf_append ((headBytes (UInt16.ofNat body.length) p.opCode 1 ++ body).drop
        ((WorldPacket.headSize + body.length) % 2 ^ 16)) hge, hsent, List.take_append_drop,
        lengthOf_headBytes]
      exact UInt16.toNat_ofNat'
    simp only [Gateway.headSize, WorldPacket.headSize] at *
    omega

/-- The client's session has been given one more packet, with the code and the payload,
    and no byte is left. -/
def Understood {σ : Type} (handler : Handler σ) (c : UserClient σ) (code : UInt16)
    (body : List UInt8) : Prop :=
  ∃ f, (UserClient.onReceive handler c.recvqCount c).derived.handed = c.derived.handed ++ [f] ∧
    f.code = code ∧ f.bytes.drop Gateway.headSize = body ∧
    (UserClient.onReceive handler c.recvqCount c).received = []

/-- Nothing short of its own length is taken off as one packet. -/
theorem parse_ne_single {b : List UInt8} (h : b.length < Gateway.headSize ∨
    lengthOf b + Gateway.headSize = b.length) {f : List UInt8} :
    ¬ ((packetFraming.parse b).frames = [f] ∧ (packetFraming.parse b).rest = []) := by
  rintro ⟨hframes, hrest⟩
  rcases hv : packetFraming.verdict b with _ | n | _
  · rw [packetFraming.parse_of_wait hv] at hframes
    cases hframes
  · obtain ⟨hlen, -, -, -, rfl⟩ := packetVerdict_frame.mp hv
    rw [packetFraming.parse_of_frame hv] at hframes hrest
    have hnone : (packetFraming.parse (b.drop (lengthOf b))).frames = [] :=
      (List.cons.inj hframes).2
    have hall := packetFraming.rest_of_no_frame hnone
    rw [hrest] at hall
    have hdrop := congrArg List.length hall
    rw [List.length_nil, List.length_drop] at hdrop
    simp only [Gateway.headSize] at *
    omega
  · rw [packetFraming.parse_of_bad hv] at hframes
    cases hframes

/-- **No packet of the robot is understood.**  Whatever its code and fields, and whatever
    the size asked for, the gate server does not take it off as one packet. -/
theorem not_understood (opCode size : UInt16) (fields : List Field) {σ : Type}
    (handler : Handler σ) (hw : UserClient.WellBehaved handler) (c : UserClient σ) (s : σ)
    (hinv : c.Inv) (hs : c.derived.session = some s)
    (hreceived : c.received = (filled opCode size fields).sent) :
    ¬ Understood handler c opCode (payload fields) := by
  rintro ⟨f, hhanded, -, -, hrest⟩
  obtain ⟨c', s', hloop, -, hrest', hhanded', -⟩ :=
    UserClient.onReceiveLoop_spec hw (c.recvqCount + 1) c s hinv hs
      (by rw [hinv.count_eq]; exact Nat.lt_succ_self _)
  rw [← hinv.count_eq] at hloop
  rw [UserClient.onReceive, hloop] at hhanded hrest
  rw [hhanded, List.append_cancel_left_eq] at hhanded'
  rw [hrest] at hrest'
  have hshort := sent_short (holds_filled opCode size fields).1
  rw [← hreceived] at hshort
  obtain ⟨g, hframes, -⟩ := List.map_eq_singleton_iff.mp hhanded'.symm
  exact parse_ne_single hshort ⟨hframes, hrest'.symm⟩

/-- A connected client of the gate server that has just read `bytes`. -/
def receiving (bytes : List UInt8) : UserClient Unit :=
  (UserClient.connected (MemoryPool.emptyPool 64) ()).replenish.transfer bytes

theorem receiving_spec (bytes : List UInt8) (h : bytes.length ≤ 20 * 64) :
    (receiving bytes).Inv ∧ (receiving bytes).received = bytes ∧
      (receiving bytes).derived.session = some () := by
  have hstart : (UserClient.connected (MemoryPool.emptyPool 64) ()).Inv := by
    refine ⟨⟨MemoryPool.emptyPool_inv 64, List.Pairwise.nil, ?_⟩, ?_, Nat.zero_le _, rfl, by decide⟩
    · exact fun v hv => absurd hv List.not_mem_nil
    · exact fun v hv => absurd hv List.not_mem_nil
  obtain ⟨hinv, hreceived, -, -, -, hderived⟩ := Net.Client.replenish_spec hstart
  have hroom : total (UserClient.connected (MemoryPool.emptyPool 64) ()).replenish.recvp =
      20 * 64 := by decide
  rw [← hroom] at h
  obtain ⟨hinv', hreceived', -, -, hderived'⟩ := Net.Client.transfer_spec hinv h
  refine ⟨hinv', ?_, ?_⟩
  · rw [receiving, hreceived', hreceived]
    rfl
  · rw [receiving, hderived', hderived]
    rfl

/-- A login packet with an empty name and password. -/
theorem not_understood_login :
    ¬ Understood UserClient.idle
      (receiving (filled 15 100 [.string [], .string [], .string []]).sent) 15
      (payload [.string [], .string [], .string []]) := by
  obtain ⟨hinv, hreceived, hs⟩ := receiving_spec
    (filled 15 100 [.string [], .string [], .string []]).sent (by decide)
  exact not_understood 15 100 [.string [], .string [], .string []] UserClient.idle
    UserClient.idle_wellBehaved _ () hinv hs hreceived

/-- The robot's ping: two 32-bit fields behind the head, and a length field that says 8.
    The gate server takes this for a broken packet and closes the client. -/
theorem ping_closes :
    (payload [.uint 1, .uint 0]).length + WorldPacket.headSize = 18 ∧
      (receiving (filled 1 30 [.uint 1, .uint 0]).sent).received =
        [220, 110, 8, 0, 1, 0, 0, 0, 1, 0, 1, 0, 0, 0, 0, 0, 0, 0] ∧
      (UserClient.onReceive UserClient.idle 18
        (receiving (filled 1 30 [.uint 1, .uint 0]).sent)).closed = true ∧
      ¬ Understood UserClient.idle (receiving (filled 1 30 [.uint 1, .uint 0]).sent) 1
        (payload [.uint 1, .uint 0]) := by
  refine ⟨by decide, by decide, by decide, ?_⟩
  rintro ⟨f, hhanded, -⟩
  have hnone : (UserClient.onReceive UserClient.idle
      (receiving (filled 1 30 [.uint 1, .uint 0]).sent).recvqCount
      (receiving (filled 1 30 [.uint 1, .uint 0]).sent)).derived.handed = [] := by decide
  rw [hnone] at hhanded
  exact absurd hhanded.symm (List.append_ne_nil_of_right_ne_nil _ (List.cons_ne_nil f []))

end Jengine.Robot
