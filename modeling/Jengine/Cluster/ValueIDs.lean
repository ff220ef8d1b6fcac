import Jengine.Cluster.Mailboxes
import Jengine.Cluster.MessageOut
import Jengine.Cluster.ProcessIDs
import Jengine.Gateway.RoundTrip

/-!
# Ids on the wire

A message carries `ValueID` of its sender and of its receiver, and `ReadHead` takes them
apart by `Parse`.  The two fit together for numbers of 24 bits, and every number that
`ProcessIDGen` gives out has 24 bits, whether or not the counter has started over.
-/

namespace Jengine.Cluster

open Jengine.Lib Jengine.Memory RefMemoryChunk Jengine.Gateway

/-! ### The head of a received message -/

namespace MessageIn

open PacketIn

/-- `ReadHead` after its `SkipTo(4)`: the code, the sender, the receiver and the session. -/
def headFields (m : Bytes) : Op (UInt16 × MailboxID × MailboxID × UInt16) := do
  let code ← readUShort m
  let sender ← MailboxID.parse <$> readUInt m
  let receiver ← MailboxID.parse <$> readUInt m
  let session ← readUShort m
  return (code, sender, receiver, session)

/-- `ReadHead`. -/
def readHead (m : Bytes) : Op (UInt16 × MailboxID × MailboxID × UInt16) := do
  PacketIn.skipTo 4
  headFields m

theorem reads_mailboxID (m : Bytes) (mbid : MailboxID) :
    Reads m (MailboxID.parse <$> readUInt m) (encodeMailboxID mbid)
      (MailboxID.parse mbid.valueID) :=
  (reads_readUInt m mbid.valueID).map MailboxID.parse

theorem reads_headFields (m : Bytes) (code : UInt16) (sender receiver : MailboxID)
    (session : UInt16) :
    Reads m (headFields m)
      (toLE 2 code.toNat ++ (encodeMailboxID sender ++ (encodeMailboxID receiver ++
        (toLE 2 session.toNat ++ []))))
      (code, MailboxID.parse sender.valueID, MailboxID.parse receiver.valueID, session) :=
  (reads_readUShort m code).bind <| (reads_mailboxID m sender).bind <|
    (reads_mailboxID m receiver).bind <| (reads_readUShort m session).bind <| Reads.pure m _

/-- `ReadHead` reads what `WriteHead` wrote, whatever chunks the message has come in. -/
theorem readHead_spec {m : Bytes} {data : List RefMemoryChunk} {msg : Message}
    {rest : List UInt8} (hbytes : bytesOf m data = msg.head ++ rest)
    (hfits : total data < 2 ^ 32) :
    ∃ pk pk', PacketIn.make data = .ok pk ∧ readHead m pk =
      .ok ((msg.code, MailboxID.parse msg.sender.valueID, MailboxID.parse msg.receiver.valueID,
        msg.session), pk') := by
  obtain ⟨pk, hmake, -, -, hsize, hcap, hregion⟩ := make_spec m data hfits
  have hdata : bytesOf m pk.data = bytesOf m data := bytesOf_of_region_eq m hregion
  have htotal : total pk.data = total data := by
    rw [← length_bytesOf m, hdata, length_bytesOf]
  have hlen := congrArg List.length hbytes
  rw [length_bytesOf, List.length_append, msg.length_head] at hlen
  have hroom : 4 ≤ pk.capacity := by
    rw [hcap, hlen]
    exact Nat.le_trans (by decide : 4 ≤ Message.headSize) (Nat.le_add_right _ _)
  obtain ⟨pk1, hskip, hunread, -⟩ :=
    PacketIn.skipTo_spec m pk 4 (hcap.trans htotal.symm) (hsize.trans hcap.symm)
      (by rw [hsize]; exact hfits) hroom
  have hdrop : (bytesOf m pk.data).drop 4 =
      (toLE 2 msg.code.toNat ++ (encodeMailboxID msg.sender ++
        (encodeMailboxID msg.receiver ++ (toLE 2 msg.session.toNat ++ [])))) ++ rest := by
    rw [hdata, hbytes, Message.head, List.append_assoc, List.drop_left' (length_toLE 4 _),
      List.append_nil]
  rw [hdrop] at hunread
  obtain ⟨pk2, hread, -⟩ := reads_headFields m _ _ _ _ pk1 rest hunread
  refine ⟨pk, pk2, hmake, ?_⟩
  have hskip : PacketIn.skipTo 4 pk = .ok ((), pk1) := by
    simp only [PacketIn.skipTo, hskip, bind, Except.bind, pure, Except.pure]
  simp only [readHead, bind, StateT.bind, Except.bind, hskip]
  exact hread

end MessageIn

/-! ### The ids of mailboxes -/

namespace NodeMonitor

variable {s s' : NodeMonitor}

/-- The numbers of the mailboxes have 24 bits. -/
def ShortPids (s : NodeMonitor) : Prop := ∀ mb ∈ s.boxes, mb.mbid.pid.toNat < 2 ^ 24

theorem ShortPids.create {name : Name} {sys r : Bool} (h : ShortPids s)
    (hcreate : s.create name sys = some (s', r)) : ShortPids s' := by
  unfold NodeMonitor.create at hcreate
  split at hcreate
  · cases hcreate
    rw [unRegister_eq]
    exact h
  · rw [Option.map_eq_some_iff] at hcreate
    obtain ⟨⟨pid, t⟩, hgen, hcreate⟩ := hcreate
    cases hcreate
    have hlt := genPid_lt hgen
    rw [register_eq]
    intro mb hmem
    rcases List.mem_append.mp hmem with hmem | hmem
    · rw [(genPid_edited hgen).2] at hmem
      exact h mb hmem
    · rw [List.mem_singleton.mp hmem]
      show (UInt32.ofNat pid).toNat < 2 ^ 24
      rw [UInt32.toNat_ofNat_of_lt' (Nat.lt_trans hlt (by decide))]
      exact hlt

theorem ShortPids.destroy (h : ShortPids s) (mb : Mailbox) : ShortPids (s.destroy mb) := by
  obtain ⟨-, -, -, hboxes⟩ := destroy_edited s mb
  exact fun mb' hmem => h mb' (hboxes mb' hmem)

theorem step_shortPids (a : Action) (h : ShortPids s) : ShortPids (s.step a) := by
  cases a with
  | create name sys =>
      simp only [step]
      split
      · rcases hcreate : s.create name sys with _ | ⟨s', r⟩
        · exact h
        · exact h.create hcreate
      · exact h
  | destroy mb => exact h.destroy mb
  | _ =>
      unfold ShortPids
      rw [(step_boxes rfl).boxes]
      exact h

/-- The counters may start over as often as they like. -/
theorem run_shortPids (cfg : Configure) (as : List Action) :
    ShortPids (run step (init cfg) as) :=
  run_keeps (fun _ a => step_shortPids a) (fun _ hmem => absurd hmem List.not_mem_nil) as

/-- What `WriteHead` makes of a message between two ids of 24 bits, and `ReadHead` of that. -/
theorem readHead_writeHead {p : MessageOut} {payload : List UInt8} (h : p.Holds payload)
    (hfits : p.message.Fits) :
    ∃ out, p.writeHead = .ok { p with out := out } ∧ ∀ m data,
      bytesOf m data = bytesOf out.pool.mem (PacketOut.fetchData out.packet) →
      ∃ pk pk', PacketIn.make data = .ok pk ∧
        MessageIn.readHead m pk = .ok ((p.code, p.sender, p.receiver, p.session), pk') := by
  obtain ⟨out, hwrite, hholds, -, hbytes, -⟩ := MessageOut.writeHead_spec h
  obtain ⟨ws, hrep⟩ := hholds.rep
  have hsize : out.packet.size = Message.headSize + payload.length := hholds.size
  have hroom : Message.headSize + payload.length ≤ out.packet.capacity := hholds.room
  refine ⟨out, hwrite, ?_⟩
  intro m data hdata
  rw [PacketOut.fetchData, PacketOut.bytesOf_fetchChunks, hbytes, hsize, List.take_append,
    List.take_of_length_le (by rw [Message.length_head]; exact Nat.le_add_right _ _)] at hdata
  have hlen := congrArg List.length hdata
  have hlt : out.packet.capacity < 2 ^ 32 := hrep.capacity_lt
  rw [length_bytesOf, List.length_append, List.length_take, p.message.length_head] at hlen
  obtain ⟨pk, pk', hmake, hread⟩ := MessageIn.readHead_spec hdata (by omega)
  refine ⟨pk, pk', hmake, ?_⟩
  rw [MailboxID.parse_valueID hfits.1, MailboxID.parse_valueID hfits.2] at hread
  exact hread

/-- **Ids survive the wire in every run.**  The id of a mailbox is what `Parse` makes of its
    `ValueID`, a message carries the ids of its sender and its receiver, and no two ids have
    the same `ValueID`. -/
theorem valueID_of_boxes (cfg cfg' : Configure) (as as' : List Action) (mb mb' : Mailbox)
    (hmb : mb ∈ (run step (init cfg) as).boxes) (hmb' : mb' ∈ (run step (init cfg') as').boxes) :
    MailboxID.parse mb.mbid.valueID = mb.mbid ∧
    (mb.mbid ≠ mb'.mbid → mb.mbid.valueID ≠ mb'.mbid.valueID) ∧
    ∀ (p : MessageOut) (payload : List UInt8), p.sender = mb.mbid → p.receiver = mb'.mbid →
      p.Holds payload →
      ∃ out, p.writeHead = .ok { p with out := out } ∧ ∀ m data,
        bytesOf m data = bytesOf out.pool.mem (PacketOut.fetchData out.packet) →
        ∃ pk pk', PacketIn.make data = .ok pk ∧
          MessageIn.readHead m pk = .ok ((p.code, mb.mbid, mb'.mbid, p.session), pk') := by
  have hshort := run_shortPids cfg as mb hmb
  have hshort' := run_shortPids cfg' as' mb' hmb'
  have hparse := MailboxID.parse_valueID hshort
  refine ⟨hparse, ?_, ?_⟩
  · intro hne heq
    apply hne
    rw [← hparse, heq, MailboxID.parse_valueID hshort']
  · intro p payload hsender hreceiver hholds
    have hfits : p.message.Fits := by
      constructor
      · show p.sender.pid.toNat < 2 ^ 24
        rw [hsender]
        exact hshort
      · show p.receiver.pid.toNat < 2 ^ 24
        rw [hreceiver]
        exact hshort'
    rw [← hsender, ← hreceiver]
    exact readHead_writeHead hholds hfits

/-- A message of three bytes from a mailbox of node `a` to one of node `b`. -/
theorem exists_message : ∃ p : MessageOut, p.sender = ⟨1, 10001⟩ ∧ p.receiver = ⟨2, 10001⟩ ∧
    p.code = 7 ∧ p.session = 5 ∧ p.Holds [1, 2, 3] := by
  have happ : PacketOut.Appends (PacketOut.putByte [1, 2, 3]) [1, 2, 3] :=
    PacketOut.appends_putByte (by decide)
  obtain ⟨p, out, -, -, h⟩ := MessageOut.make_holds 7 16 (MemoryPool.emptyPool_inv 64)
    (by decide) (by decide) happ (by decide)
  exact ⟨⟨out, 7, ⟨1, 10001⟩, ⟨2, 10001⟩, 5⟩, rfl, rfl, rfl, rfl,
    h.rep, h.chunksize, h.size, h.room, h.bytes⟩

/-- Both nodes have a mailbox with the number 10001, and one writes to the other. -/
theorem valueID_of_boxes_inhabited :
    MailboxID.parse (MailboxID.valueID ⟨1, 10001⟩) = ⟨1, 10001⟩ ∧
    MailboxID.valueID ⟨1, 10001⟩ ≠ MailboxID.valueID ⟨2, 10001⟩ ∧
    ∃ p : MessageOut, p.Holds [1, 2, 3] ∧
      ∃ out, p.writeHead = .ok { p with out := out } ∧ ∀ m data,
        bytesOf m data = bytesOf out.pool.mem (PacketOut.fetchData out.packet) →
        ∃ pk pk', PacketIn.make data = .ok pk ∧
          MessageIn.readHead m pk = .ok ((7, ⟨1, 10001⟩, ⟨2, 10001⟩, 5), pk') := by
  obtain ⟨hparse, hdiffer, hmessage⟩ := valueID_of_boxes (clusterA []) clusterB
    [.beginSetup true true [], .create [109] false] [.beginSetup true true [], .create [110] false]
    ⟨[109], ⟨1, 10001⟩⟩ ⟨[110], ⟨2, 10001⟩⟩ (by decide +kernel) (by decide +kernel)
  obtain ⟨p, hsender, hreceiver, hcode, hsession, hholds⟩ := exists_message
  obtain ⟨out, hwrite, hread⟩ := hmessage p [1, 2, 3] hsender hreceiver hholds
  rw [hcode, hsession] at hread
  exact ⟨hparse, hdiffer (by decide), p, hholds, out, hwrite, hread⟩

end NodeMonitor

end Jengine.Cluster
