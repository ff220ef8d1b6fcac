import Jengine.Cluster.MailboxID
import Jengine.Gateway.PacketRead

/-!
# Messages between nodes

`MessageIn` and `MessageOut` (`base/cluster/message.h`) are packets with a head
of sixteen bytes: size, code, sender, receiver and session.  What is in a
message is read through the chunks of a packet; by the results on packets that
is reading a byte string, and the readers below work on the byte string itself.
`Simulates` is that statement for each of them.
-/

namespace Jengine.Cluster

open Jengine.Lib Jengine.Memory RefMemoryChunk Jengine.Gateway

/-- The part of a message that the handlers see; `payload` is what follows the head. -/
structure Message where
  code : UInt16
  /-- `from()`. -/
  sender : MailboxID
  /-- `to()`. -/
  receiver : MailboxID
  session : UInt16
  payload : List UInt8
deriving DecidableEq, Repr

/-! ### Reading -/

/-- A reader of a byte string; `none` is the exception of `GetByte`. -/
abbrev Reader := StateT (List UInt8) Option

namespace Reader

def getByte (n : Nat) : Reader (List UInt8) := fun bs =>
  if n ≤ bs.length then some (bs.take n, bs.drop n) else none

def readInt (n : Nat) : Reader Nat := do
  let bs ← getByte n
  return ofLE bs

def readByte : Reader UInt8 := UInt8.ofNat <$> readInt 1
def readUShort : Reader UInt16 := UInt16.ofNat <$> readInt 2
def readUInt : Reader UInt32 := UInt32.ofNat <$> readInt 4

def readString : Reader Name := do
  let strlen ← readUShort
  getByte strlen.toNat

/-- `operator >> (PacketInBase&, MailboxID&)`. -/
def readMailboxID : Reader MailboxID := MailboxID.parse <$> readUInt

/-- `op` does through the chunks of a packet what `r` does to its bytes. -/
structure Simulates {α : Type} (m : Bytes) (op : PacketIn.Op α) (r : Reader α) : Prop where
  ok : ∀ {pk bs a rest}, PacketIn.Unread m pk bs → pk.size + 65535 < 2 ^ 32 →
    r bs = some (a, rest) →
    ∃ pk', op pk = .ok (a, pk') ∧ PacketIn.Unread m pk' rest ∧ pk'.size = pk.size
  throws : ∀ {pk bs}, PacketIn.Unread m pk bs → pk.size + 65535 < 2 ^ 32 → r bs = none →
    op pk = .error .noMoreData

theorem simulates_getByte (m : Bytes) {n : Nat} (hn : n ≤ 65535) :
    Simulates m (PacketIn.getByte m n) (getByte n) := by
  constructor
  · intro pk bs a rest h _ hr
    by_cases hle : n ≤ bs.length
    · rw [getByte, if_pos hle, Option.some.injEq, Prod.mk.injEq] at hr
      obtain ⟨rfl, rfl⟩ := hr
      have hsplit : PacketIn.Unread m pk (bs.take n ++ bs.drop n) := by
        rw [List.take_append_drop]
        exact h
      obtain ⟨pk', hop, hrest, -⟩ := PacketIn.getByte_spec hsplit
      rw [List.length_take_of_le hle] at hop
      exact ⟨pk', hop, hrest, PacketIn.size_getByte hop⟩
    · rw [getByte, if_neg hle] at hr
      cases hr
  · intro pk bs h hsize hr
    have hpos := h.size
    by_cases hle : n ≤ bs.length
    · rw [getByte, if_pos hle] at hr
      cases hr
    · exact PacketIn.getByte_short h (by omega) (by omega)

theorem Simulates.bind {m : Bytes} {α β : Type} {op : PacketIn.Op α} {r : Reader α}
    {f : α → PacketIn.Op β} {g : α → Reader β} (h : Simulates m op r)
    (hf : ∀ a, Simulates m (f a) (g a)) : Simulates m (op >>= f) (r >>= g) := by
  constructor
  · intro pk bs b rest hpk hsize hr
    change ((r bs).bind fun p => g p.1 p.2) = _ at hr
    rw [Option.bind_eq_some_iff] at hr
    obtain ⟨⟨a, mid⟩, hfirst, hsecond⟩ := hr
    obtain ⟨pk1, hop1, hrest1, hsize1⟩ := h.ok hpk hsize hfirst
    obtain ⟨pk2, hop2, hrest2, hsize2⟩ := (hf a).ok hrest1 (by omega) hsecond
    refine ⟨pk2, ?_, hrest2, hsize2.trans hsize1⟩
    show (op pk >>= fun p => f p.1 p.2) = _
    rw [hop1]
    exact hop2
  · intro pk bs hpk hsize hr
    change ((r bs).bind fun p => g p.1 p.2) = _ at hr
    show (op pk >>= fun p => f p.1 p.2) = _
    rcases hfirst : r bs with _ | ⟨a, mid⟩
    · rw [h.throws hpk hsize hfirst]
      rfl
    · obtain ⟨pk1, hop1, hrest1, hsize1⟩ := h.ok hpk hsize hfirst
      rw [hfirst] at hr
      rw [hop1]
      exact (hf a).throws hrest1 (show pk1.size + 65535 < 2 ^ 32 by omega) hr

theorem Simulates.pure (m : Bytes) {α : Type} (a : α) :
    Simulates m (Pure.pure a) (Pure.pure a) := by
  constructor
  · rintro pk bs b rest h _ hr
    cases hr
    exact ⟨pk, rfl, h, rfl⟩
  · intro pk bs _ _ hr
    cases hr

theorem Simulates.map {m : Bytes} {α β : Type} {op : PacketIn.Op α} {r : Reader α} (f : α → β)
    (h : Simulates m op r) : Simulates m (f <$> op) (f <$> r) :=
  h.bind fun a => Simulates.pure m (f a)

theorem simulates_readInt (m : Bytes) {n : Nat} (hn : n ≤ 65535) :
    Simulates m (PacketIn.readInt m n) (readInt n) :=
  (simulates_getByte m hn).bind fun bs => Simulates.pure m (ofLE bs)

/-- The readers the node monitor uses work on the bytes of the message, however they
    are chunked. -/
theorem simulates_readers (m : Bytes) :
    Simulates m (PacketIn.readByte m) readByte ∧ Simulates m (PacketIn.readUShort m) readUShort ∧
      Simulates m (PacketIn.readUInt m) readUInt ∧
      Simulates m (PacketIn.readString m) readString := by
  have hshort : Simulates m (PacketIn.readUShort m) readUShort :=
    (simulates_readInt m (by decide)).map UInt16.ofNat
  refine ⟨(simulates_readInt m (by decide)).map UInt8.ofNat, hshort,
    (simulates_readInt m (by decide)).map UInt32.ofNat, ?_⟩
  apply hshort.bind
  intro strlen
  have hlt : strlen.toNat < 2 ^ 16 := strlen.toNat_lt
  exact simulates_getByte m (by omega)

end Reader

/-! ### Writing -/

/-- What `WriteString` appends to a packet. -/
def encodeString (str : Name) : List UInt8 :=
  toLE 2 (UInt16.ofNat str.length).toNat ++ str.take (u32 str.length)

/-- What `operator << (PacketOutBase&, const MailboxID&)` appends. -/
def encodeMailboxID (mbid : MailboxID) : List UInt8 := toLE 4 mbid.valueID.toNat

namespace Reader

theorem getByte_append {n : Nat} {xs : List UInt8} (h : xs.length = n) (rest : List UInt8) :
    getByte n (xs ++ rest) = some (xs, rest) := by
  subst h
  simp [getByte]

theorem readInt_toLE {n v : Nat} (h : v < 256 ^ n) (rest : List UInt8) :
    readInt n (toLE n v ++ rest) = some (v, rest) := by
  show ((getByte n (toLE n v ++ rest)).bind fun p => some (ofLE p.1, p.2)) = _
  rw [getByte_append (length_toLE n v) rest]
  simp [ofLE_toLE_of_lt h]

theorem readUShort_toLE (v : UInt16) (rest : List UInt8) :
    readUShort (toLE 2 v.toNat ++ rest) = some (v, rest) := by
  show ((readInt 2 (toLE 2 v.toNat ++ rest)).bind fun p => some (UInt16.ofNat p.1, p.2)) = _
  rw [readInt_toLE v.toNat_lt]
  simp

/-- What a string of at most 65535 bytes is written as is read back. -/
theorem readString_encodeString {str : Name} (h : str.length ≤ 65535) (rest : List UInt8) :
    readString (encodeString str ++ rest) = some (str, rest) := by
  have hlen : (UInt16.ofNat str.length).toNat = str.length :=
    UInt16.toNat_ofNat_of_lt' (by show str.length < 2 ^ 16; omega)
  have hall : str.take (u32 str.length) = str := by
    rw [show u32 str.length = str.length from Nat.mod_eq_of_lt (by omega), List.take_length]
  rw [encodeString, hall, List.append_assoc]
  show ((readUShort (toLE 2 (UInt16.ofNat str.length).toNat ++ (str ++ rest))).bind fun p =>
    getByte p.1.toNat p.2) = _
  rw [readUShort_toLE, Option.bind_some, hlen, getByte_append rfl rest]

theorem readMailboxID_encode (mbid : MailboxID) (rest : List UInt8) :
    readMailboxID (encodeMailboxID mbid ++ rest) =
      some (MailboxID.parse mbid.valueID, rest) := by
  have hint : readUInt (toLE 4 mbid.valueID.toNat ++ rest) = some (mbid.valueID, rest) := by
    show ((readInt 4 (toLE 4 mbid.valueID.toNat ++ rest)).bind fun p =>
      some (UInt32.ofNat p.1, p.2)) = _
    rw [readInt_toLE mbid.valueID.toNat_lt]
    simp
  show ((readUInt (toLE 4 mbid.valueID.toNat ++ rest)).bind fun p =>
    some (MailboxID.parse p.1, p.2)) = _
  rw [hint]
  rfl

end Reader

namespace Message

/-- `HEAD_SIZE`. -/
def headSize : Nat := 16

/-- The bytes that `WriteHead` and `FetchData` make of a message. -/
def toFrame (msg : Message) : List UInt8 :=
  toLE 4 (u32 (headSize + msg.payload.length)) ++ (toLE 2 msg.code.toNat ++
    (encodeMailboxID msg.sender ++ (encodeMailboxID msg.receiver ++
      (toLE 2 msg.session.toNat ++ msg.payload))))

/-- The `k` bytes at offset `i`, as a number. -/
def field (frame : List UInt8) (i k : Nat) : Nat := ofLE ((frame.drop i).take k)

/-- `MessageIn::ReadHead`. -/
def ofFrame (frame : List UInt8) : Message where
  code := UInt16.ofNat (field frame 4 2)
  sender := MailboxID.parse (UInt32.ofNat (field frame 6 4))
  receiver := MailboxID.parse (UInt32.ofNat (field frame 10 4))
  session := UInt16.ofNat (field frame 14 2)
  payload := frame.drop headSize

/-- A message as it arrives: the ids have gone through `ValueID` and `Parse`. -/
def wire (msg : Message) : Message :=
  { msg with sender := MailboxID.parse msg.sender.valueID
             receiver := MailboxID.parse msg.receiver.valueID }

theorem field_of_drop {frame xs rest : List UInt8} {i k : Nat} (hdrop : frame.drop i = xs ++ rest)
    (hlen : xs.length = k) : field frame i k = ofLE xs := by
  rw [field, hdrop, List.take_left' hlen]

theorem drop_of_drop {frame xs rest : List UInt8} {i k : Nat} (hdrop : frame.drop i = xs ++ rest)
    (hlen : xs.length = k) : frame.drop (i + k) = rest := by
  rw [← List.drop_drop, hdrop, List.drop_left' hlen]

theorem ofFrame_toFrame (msg : Message) : ofFrame msg.toFrame = msg.wire := by
  have h0 : msg.toFrame.drop 0 = _ := rfl
  have h4 := drop_of_drop h0 (length_toLE 4 _)
  have h6 := drop_of_drop h4 (length_toLE 2 _)
  have h10 := drop_of_drop h6 (length_toLE 4 _)
  have h14 := drop_of_drop h10 (length_toLE 4 _)
  have h16 := drop_of_drop h14 (length_toLE 2 _)
  have hcode := field_of_drop h4 (length_toLE 2 _)
  have hfrom := field_of_drop h6 (length_toLE 4 _)
  have hto := field_of_drop h10 (length_toLE 4 _)
  have hsession := field_of_drop h14 (length_toLE 2 _)
  rw [ofLE_toLE_of_lt msg.code.toNat_lt] at hcode
  rw [encodeMailboxID, ofLE_toLE_of_lt msg.sender.valueID.toNat_lt] at hfrom
  rw [encodeMailboxID, ofLE_toLE_of_lt msg.receiver.valueID.toNat_lt] at hto
  rw [ofLE_toLE_of_lt msg.session.toNat_lt] at hsession
  simp only [Nat.zero_add, Nat.reduceAdd] at hcode hfrom hto hsession h16
  simp only [ofFrame, wire, headSize, hcode, hfrom, hto, hsession, h16, UInt16.ofNat_toNat,
    UInt32.ofNat_toNat]

end Message

end Jengine.Cluster
