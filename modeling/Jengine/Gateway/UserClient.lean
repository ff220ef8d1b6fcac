import Jengine.Gateway.Packet
import Jengine.Lib.Framing
import Jengine.Net.Client

/-!
# Packets of a user client

`UserClient::OnReceive` (`base/gateway/userclient.cpp`) cuts packets off the
receive queue and hands them to the session.  Three partitions of the same
bytes meet here: the results of `readv`, the chunks of the pool, and the
packets.  `packetFraming` is the reference: it knows bytes only.  The main
result says that the session gets the packets of the reference, and that the
client is closed exactly when the reference gives up, however the stream was
read and whatever the chunk size is.
-/

namespace Jengine.Gateway

open Jengine.Lib Jengine.Memory RefMemoryChunk Jengine.Net

/-- `pkthead_.head.identifier`. -/
def identifierOf (head : List UInt8) : Nat := ofLE (head.take 2)

/-- `pkthead_.head.length`. -/
def lengthOf (head : List UInt8) : Nat := ofLE ((head.drop 2).take 2)

/-- What the session is given: the head read by `ReadHead`, and all bytes. -/
structure Frame where
  code : UInt16
  sessionid : UInt16
  bytes : List UInt8
deriving DecidableEq, Repr

/-- The members `UserClient` adds to `Client`, and the packets handed over so far. -/
structure UserData (σ : Type) where
  pkthead : List UInt8
  session : Option σ
  handed : List Frame

abbrev UserClient (σ : Type) := Client (UserData σ)

/-- What `OnUserClientReceivePacket` did: to the session, to the pool, and whether it
    closed the client or threw. -/
structure Handled (σ : Type) where
  session : σ
  pool : MemoryPool
  closes : Bool
  throws : Bool

/-- `UserSession::OnUserClientReceivePacket`. -/
abbrev Handler (σ : Type) := σ → UInt16 → UInt16 → Packet → UserClient σ → Handled σ

namespace UserClient

variable {σ : Type}

/-- `CopyReceive(pkthead_.data, sizeof(pkthead_))`: bytes that are not there leave the
    old ones in `pkthead_`. -/
def copyHead (c : UserClient σ) : UserClient σ :=
  let (head, c) := c.copyReceive 4
  { c with derived := { c.derived with pkthead := head ++ c.derived.pkthead.drop head.length } }

/-- The session has handled a packet, and the packet is destroyed. -/
def handedOver (c : UserClient σ) (pk : Packet) (code sessionid : UInt16) (r : Handled σ) :
    UserClient σ :=
  { c with
    pool := r.pool.releaseAll pk.data
    closed := c.closed || r.closes
    derived :=
      { c.derived with
        session := some r.session
        handed := c.derived.handed ++ [⟨code, sessionid, bytesOf c.pool.mem pk.data⟩] } }

/-- Pop a packet of the given length and hand it to the session.  The second
    component says whether the loop goes on. -/
def receivePacket (handler : Handler σ) (length : Nat) (c : UserClient σ) : UserClient σ × Bool :=
  let (data, c) := c.popReceive length
  match PacketIn.make data >>= PacketIn.readHead c.pool.mem with
  | .error _ => ({ c with pool := c.pool.releaseAll data }.close, false)
  | .ok ((code, sessionid), pk) =>
      match c.derived.session with
      | none => ({ c with pool := c.pool.releaseAll pk.data }, true)
      | some s =>
          let r := handler s code sessionid pk c
          let c := handedOver c pk code sessionid r
          if r.throws then (c.close, false) else (c, true)

/-- The loop of `OnReceive`. -/
def onReceiveLoop (handler : Handler σ) : Nat → Nat → UserClient σ → UserClient σ
  | 0, _, c => c
  | fuel + 1, count, c =>
      if headSize ≤ count then
        let c := copyHead c
        let length := lengthOf c.derived.pkthead
        if identifierOf c.derived.pkthead = identifier.toNat ∧ headSize ≤ length then
          if length ≤ count then
            let (c, goesOn) := receivePacket handler length c
            if goesOn then onReceiveLoop handler fuel (count - length) c else c
          else c
        else c.close
      else c

/-- `OnReceive`.  Every pass that does not end the loop takes at least `HEAD_SIZE`
    bytes off `count`. -/
def onReceive (handler : Handler σ) (count : Nat) (c : UserClient σ) : UserClient σ :=
  onReceiveLoop handler (count + 1) count c

/-- A session that returns normally, does not close the client, and leaves alone the
    views it does not own: those of the packet and of the client. -/
structure WellBehaved (handler : Handler σ) : Prop where
  returns : ∀ s code sessionid pk c, (handler s code sessionid pk c).throws = false
  open_ : ∀ s code sessionid pk c, (handler s code sessionid pk c).closes = false
  keeps : ∀ s code sessionid pk c, MemoryPool.Keeps (pk.data ++ (c.recvq ++ c.recvp)) c.pool
    (handler s code sessionid pk c).pool

end UserClient

/-! ### The reference -/

/-- What the front of a stream of packets holds. -/
def packetVerdict (b : List UInt8) : Verdict :=
  if headSize ≤ b.length then
    if identifierOf b = identifier.toNat ∧ headSize ≤ lengthOf b then
      if lengthOf b ≤ b.length then .frame (lengthOf b) else .wait
    else .bad
  else .wait

theorem identifierOf_append {b : List UInt8} (c : List UInt8) (h : headSize ≤ b.length) :
    identifierOf (b ++ c) = identifierOf b := by
  simp only [headSize] at h
  rw [identifierOf, identifierOf, List.take_append_of_le_length (by omega)]

theorem lengthOf_append {b : List UInt8} (c : List UInt8) (h : headSize ≤ b.length) :
    lengthOf (b ++ c) = lengthOf b := by
  simp only [headSize] at h
  rw [lengthOf, lengthOf, List.drop_append_of_le_length (by omega),
    List.take_append_of_le_length (by rw [List.length_drop]; omega)]

theorem packetVerdict_frame {b : List UInt8} {n : Nat} :
    packetVerdict b = .frame n ↔
      headSize ≤ b.length ∧ identifierOf b = identifier.toNat ∧ headSize ≤ n ∧ n ≤ b.length ∧
        n = lengthOf b := by
  unfold packetVerdict
  split
  · split
    · split
      · simp only [Verdict.frame.injEq]
        constructor
        · rintro rfl
          tauto
        · tauto
      · simp only [reduceCtorEq, false_iff]
        rintro ⟨-, -, -, hle, rfl⟩
        contradiction
    · rename_i hbad
      simp only [reduceCtorEq, false_iff]
      rintro ⟨-, hid, hn, -, rfl⟩
      exact hbad ⟨hid, hn⟩
  · rename_i hshort
    simp only [reduceCtorEq, false_iff]
    rintro ⟨hlen, -⟩
    exact hshort hlen

theorem packetVerdict_bad {b : List UInt8} :
    packetVerdict b = .bad ↔
      headSize ≤ b.length ∧ ¬ (identifierOf b = identifier.toNat ∧ headSize ≤ lengthOf b) := by
  unfold packetVerdict
  split
  · split
    · split <;> simp_all
    · simp_all
  · simp_all

/-- The reference parser: 28380 and a length of at least ten, then as many bytes. -/
def packetFraming : Framing UInt8 where
  verdict := packetVerdict
  frame_bounds := by
    intro b n h
    obtain ⟨-, -, hn, hle, -⟩ := packetVerdict_frame.mp h
    exact ⟨Nat.lt_of_lt_of_le (by decide) hn, hle⟩
  frame_stable := by
    intro b n c h
    obtain ⟨hlen, hid, hn, hle, hlength⟩ := packetVerdict_frame.mp h
    apply packetVerdict_frame.mpr
    rw [identifierOf_append c hlen, lengthOf_append c hlen, List.length_append]
    exact ⟨Nat.le_add_right_of_le hlen, hid, hn, Nat.le_add_right_of_le hle, hlength⟩
  bad_stable := by
    intro b c h
    obtain ⟨hlen, hbad⟩ := packetVerdict_bad.mp h
    apply packetVerdict_bad.mpr
    rw [identifierOf_append c hlen, lengthOf_append c hlen, List.length_append]
    exact ⟨Nat.le_add_right_of_le hlen, hbad⟩

/-- The bytes of a packet as the session sees them. -/
def toFrame (b : List UInt8) : Frame := ⟨codeOf b, sessionidOf b, b⟩

namespace UserClient

variable {σ : Type}

/-! ### One pass of the loop of `OnReceive` -/

theorem identifierOf_take {b : List UInt8} (x : List UInt8) (h : headSize ≤ b.length) :
    identifierOf (b.take 4 ++ x) = identifierOf b := by
  simp only [headSize] at h
  rw [identifierOf, identifierOf, List.take_append_of_le_length (by rw [List.length_take]; omega),
    List.take_take]
  rfl

theorem lengthOf_take {b : List UInt8} (x : List UInt8) (h : headSize ≤ b.length) :
    lengthOf (b.take 4 ++ x) = lengthOf b := by
  simp only [headSize] at h
  have hlen : (b.take 4).length = 4 := List.length_take_of_le (by omega)
  rw [lengthOf, lengthOf, List.drop_append_of_le_length (by omega),
    List.take_append_of_le_length (by rw [List.length_drop]; omega), List.drop_take, List.take_take]
  rfl

theorem lengthOf_lt (b : List UInt8) : lengthOf b < 65536 := by
  have hlt := ofLE_lt ((b.drop 2).take 2)
  have hlen : ((b.drop 2).take 2).length ≤ 2 := by
    rw [List.length_take]
    exact Nat.min_le_left _ _
  exact Nat.lt_of_lt_of_le hlt (Nat.pow_le_pow_right (by decide) hlen)

/-- `pkthead_` holds the head of what is in the queue, and nothing else changed. -/
theorem copyHead_spec {c : UserClient σ} (h : c.Inv) (hlen : headSize ≤ c.received.length) :
    ∃ pkthead, copyHead c = { c with derived := { c.derived with pkthead := pkthead } } ∧
      identifierOf pkthead = identifierOf c.received ∧ lengthOf pkthead = lengthOf c.received := by
  refine ⟨c.received.take 4 ++ c.derived.pkthead.drop (c.received.take 4).length, ?_,
    identifierOf_take _ hlen, lengthOf_take _ hlen⟩
  simp only [copyHead, Client.copyReceive_spec h (by decide : 4 < 2 ^ 32)]

/-- One packet is popped and handed to a session that leaves the views of the client alone,
    whether it closes the client, throws, or neither. -/
theorem receivePacket_eq {handler : Handler σ}
    (hkeeps : ∀ s code sessionid pk c, MemoryPool.Keeps (pk.data ++ (c.recvq ++ c.recvp)) c.pool
      (handler s code sessionid pk c).pool)
    {c : UserClient σ} (h : c.Inv) {s : σ} (hs : c.derived.session = some s) {n : Nat}
    (hn : n ≤ c.received.length) (hlow : headSize ≤ n) (hhigh : n < 65536) :
    ∃ pk c2 c3 r, handler s (codeOf (c.received.take n)) (sessionidOf (c.received.take n)) pk c2 = r ∧
      c3 = handedOver c2 pk (codeOf (c.received.take n)) (sessionidOf (c.received.take n)) r ∧
      receivePacket handler n c = (if r.throws then (c3.close, false) else (c3, true)) ∧
      c3.Inv ∧ c3.received = c.received.drop n ∧
      bytesOf c2.pool.mem pk.data = c.received.take n ∧ c2.closed = c.closed ∧
      c2.connect = c.connect ∧ c2.derived = c.derived := by
  obtain ⟨hdata, hrest, hinv, hmem, hsound, hclosed, hconnect, hderived⟩ :=
    Client.popReceive_spec h hn
  rcases hpop : c.popReceive n with ⟨data, c2⟩
  rw [hpop] at hdata hrest hinv hmem hsound hclosed hconnect hderived
  dsimp only at hdata hrest hinv hmem hsound hclosed hconnect hderived
  rw [← hmem] at hdata
  have htotal : total data = n := by
    rw [← length_bytesOf c2.pool.mem, hdata, List.length_take_of_le hn]
  -- `ReadHead` finds the head at the front of the bytes popped
  obtain ⟨pk0, hmake, -, -, hsize, hcap, hregion0⟩ := PacketIn.make_spec c2.pool.mem data (by omega)
  have hbytes0 := bytesOf_of_region_eq c2.pool.mem hregion0
  have htotal0 : total pk0.data = n := by
    rw [← length_bytesOf c2.pool.mem, hbytes0, length_bytesOf, htotal]
  obtain ⟨pk, hread, -, hregion⟩ := PacketIn.readHead_spec
    (show pk0.capacity = total pk0.data by omega) (by omega) (by omega)
    (show headSize ≤ (bytesOf c2.pool.mem pk0.data).length by rw [length_bytesOf, htotal0]; exact hlow)
  rw [hbytes0, hdata] at hread
  have hbytes : bytesOf c2.pool.mem pk.data = c.received.take n := by
    rw [bytesOf_of_region_eq _ (hregion.trans hregion0), hdata]
  -- the session leaves the views of the client alone
  have hs2 : c2.derived.session = some s := by rw [hderived, hs]
  have hlive : c2.pool.Inv (pk.data ++ (c2.recvq ++ c2.recvp)) := by
    refine MemoryPool.Inv.of_region_eq ?_ hsound.inv
    simp only [List.map_append, hregion, hregion0]
  generalize hr : handler s (codeOf (c.received.take n)) (sessionidOf (c.received.take n)) pk c2 = r
  have hkeeps2 := hkeeps s (codeOf (c.received.take n)) (sessionidOf (c.received.take n)) pk c2
  rw [hr] at hkeeps2
  obtain ⟨hinv3, hmem3, hsize3⟩ := MemoryPool.Inv.releaseAll pk.data (hkeeps2.inv hlive)
  refine ⟨pk, c2, _, r, hr, rfl, ?_, ⟨⟨hinv3, hinv.sound.apart, hinv.sound.fresh⟩, hinv.filled,
    hinv.recvp_le, hinv.count, ?_⟩, ?_, hbytes, hclosed, hconnect, hderived⟩
  · simp only [receivePacket, hpop, hmake, bind, Except.bind, hread, hs2, hr]
  · rw [MemoryPool.chunkLength, handedOver, hsize3, hkeeps2.chunksize]
    exact hinv.chunk_pos
  · rw [← hrest]
    show bytesOf (r.pool.releaseAll pk.data).mem c2.recvq = bytesOf c2.pool.mem c2.recvq
    rw [hmem3]
    apply bytesOf_congr
    intro v hv
    exact hkeeps2.bytes v (List.mem_append_right _ (List.mem_append_left _ hv))

/-- One packet is handed to a well-behaved session. -/
theorem receivePacket_spec {handler : Handler σ} (hw : WellBehaved handler) {c : UserClient σ}
    (h : c.Inv) {s : σ} (hs : c.derived.session = some s) {n : Nat} (hn : n ≤ c.received.length)
    (hlow : headSize ≤ n) (hhigh : n < 65536) :
    ∃ c' s', receivePacket handler n c = (c', true) ∧ c'.Inv ∧ c'.received = c.received.drop n ∧
      c'.derived.handed = c.derived.handed ++ [toFrame (c.received.take n)] ∧
      c'.derived.session = some s' ∧ c'.closed = c.closed ∧ c'.connect = c.connect := by
  obtain ⟨pk, c2, c3, r, hr, hc3, heq, hinv, hrest, hbytes, hclosed, hconnect, hderived⟩ :=
    receivePacket_eq hw.keeps h hs hn hlow hhigh
  have hthrows := hw.returns s (codeOf (c.received.take n)) (sessionidOf (c.received.take n)) pk c2
  have hcloses := hw.open_ s (codeOf (c.received.take n)) (sessionidOf (c.received.take n)) pk c2
  rw [hr] at hthrows hcloses
  rw [hthrows, if_neg Bool.false_ne_true] at heq
  refine ⟨c3, r.session, heq, hinv, hrest, ?_, ?_, ?_, ?_⟩
  · rw [hc3, handedOver, hderived, hbytes, toFrame]
  · rw [hc3, handedOver]
  · rw [hc3, handedOver, hcloses, Bool.or_false, hclosed]
  · rw [hc3, handedOver, hconnect]

/-- `OnReceive` does to the queue what the reference does to its bytes. -/
theorem onReceiveLoop_spec {handler : Handler σ} (hw : WellBehaved handler) :
    ∀ (fuel : Nat) (c : UserClient σ) (s : σ), c.Inv → c.derived.session = some s →
      c.received.length < fuel →
      ∃ c' s', onReceiveLoop handler fuel c.received.length c = c' ∧ c'.Inv ∧
        c'.received = (packetFraming.parse c.received).rest ∧
        c'.derived.handed = c.derived.handed ++ (packetFraming.parse c.received).frames.map toFrame ∧
        c'.derived.session = some s' ∧
        c'.closed = (c.closed || (packetFraming.parse c.received).bad) ∧
        c'.connect = c.connect := by
  intro fuel
  induction fuel with
  | zero =>
      intro c s _ _ hfuel
      omega
  | succ fuel ih =>
      intro c s h hs hfuel
      by_cases hlen : headSize ≤ c.received.length
      · obtain ⟨pkthead, hcopy, hid, hlength⟩ := copyHead_spec h hlen
        have h1 : ({ c with derived := { c.derived with pkthead := pkthead } } : UserClient σ).Inv :=
          ⟨h.sound, h.filled, h.recvp_le, h.count, h.chunk_pos⟩
        by_cases hhead : identifierOf c.received = identifier.toNat ∧ headSize ≤ lengthOf c.received
        · by_cases hall : lengthOf c.received ≤ c.received.length
          · -- a complete packet
            have hverdict : packetFraming.verdict c.received = .frame (lengthOf c.received) :=
              packetVerdict_frame.mpr ⟨hlen, hhead.1, hhead.2, hall, rfl⟩
            obtain ⟨c2, s2, hrecv, hinv2, hrest2, hhanded2, hs2, hclosed2, hconnect2⟩ :=
              receivePacket_spec hw h1 (s := s) hs hall hhead.2 (lengthOf_lt _)
            have hrest2' : c2.received = c.received.drop (lengthOf c.received) := hrest2
            have hlen2 : c2.received.length = c.received.length - lengthOf c.received := by
              rw [hrest2', List.length_drop]
            have hpos : headSize ≤ lengthOf c.received := hhead.2
            simp only [headSize] at hpos
            obtain ⟨c3, s3, hloop, hinv3, hrest3, hhanded3, hs3, hclosed3, hconnect3⟩ :=
              ih c2 s2 hinv2 hs2 (by omega)
            rw [packetFraming.parse_of_frame hverdict, ← hrest2']
            refine ⟨c3, s3, ?_, hinv3, hrest3, ?_, hs3, ?_, hconnect3.trans hconnect2⟩
            · simp only [onReceiveLoop, if_pos hlen, hcopy, hid, hlength, if_pos hhead, if_pos hall,
                hrecv, if_true, ← hlen2]
              exact hloop
            · rw [hhanded3, hhanded2, List.map_cons, List.append_assoc]
              rfl
            · rw [hclosed3, hclosed2]
          · have hverdict : packetFraming.verdict c.received = .wait := by
              show packetVerdict c.received = .wait
              rw [packetVerdict, if_pos hlen, if_pos hhead, if_neg hall]
            rw [packetFraming.parse_of_wait hverdict]
            refine ⟨_, s, ?_, h1, rfl, (List.append_nil _).symm, hs, (Bool.or_false _).symm, rfl⟩
            simp only [onReceiveLoop, if_pos hlen, hcopy, hid, hlength, if_pos hhead, if_neg hall]
        · have hverdict : packetFraming.verdict c.received = .bad :=
            packetVerdict_bad.mpr ⟨hlen, hhead⟩
          rw [packetFraming.parse_of_bad hverdict]
          refine ⟨Client.close { c with derived := { c.derived with pkthead := pkthead } }, s, ?_,
            ⟨h1.sound, h1.filled, h1.recvp_le, h1.count, h1.chunk_pos⟩, rfl,
            (List.append_nil _).symm, hs, (Bool.or_true _).symm, rfl⟩
          simp only [onReceiveLoop, if_pos hlen, hcopy, hid, hlength, if_neg hhead]
      · have hverdict : packetFraming.verdict c.received = .wait := by
          show packetVerdict c.received = .wait
          rw [packetVerdict, if_neg hlen]
        rw [packetFraming.parse_of_wait hverdict]
        refine ⟨c, s, ?_, h, rfl, (List.append_nil _).symm, hs, (Bool.or_false _).symm, rfl⟩
        simp only [onReceiveLoop, if_neg hlen]

/-! ### Whole streams -/

/-- A client that has just been connected and given its session. -/
def connected (mempool : MemoryPool) (s : σ) : UserClient σ :=
  ⟨mempool, true, false, [], 0, [], ⟨[0, 0, 0, 0], some s, []⟩⟩

/-- A run of readable events.  Every event is given by the positive results its calls
    of `readv` are ready to return. -/
def run (handler : Handler σ) : List (List ℕ+) → UserClient σ → List UInt8 →
    UserClient σ × List UInt8
  | [], c, pending => (c, pending)
  | ns :: events, c, pending =>
      let (c, pending) := c.onEventIOReadable (onReceive handler) (ns.map .bytes) pending
      run handler events c pending

/-- After reading `t` the client is where the reference is. -/
structure Tracks (c : UserClient σ) (t : List UInt8) : Prop where
  inv : c.Inv
  connect : c.connect = true
  session : ∃ s, c.derived.session = some s
  handed : c.derived.handed = (packetFraming.parse t).frames.map toFrame
  closed : c.closed = (packetFraming.parse t).bad
  received : c.received = (packetFraming.parse t).rest

theorem Tracks.replenish {c : UserClient σ} {t : List UInt8} (h : Tracks c t) :
    Tracks c.replenish t := by
  obtain ⟨hinv, hreceived, -, hclosed, hconnect, hderived⟩ := Client.replenish_spec h.inv
  exact ⟨hinv, hconnect.trans h.connect, by rw [hderived]; exact h.session,
    by rw [hderived]; exact h.handed, hclosed.trans h.closed, hreceived.trans h.received⟩

theorem Tracks.receive {handler : Handler σ} (hw : WellBehaved handler) {c : UserClient σ}
    {t bs : List UInt8} (h : Tracks c t) (hopen : c.closed = false)
    (hroom : bs.length ≤ total c.recvp) :
    Tracks (onReceive handler (c.transfer bs).recvqCount (c.transfer bs)) (t ++ bs) := by
  obtain ⟨hinv, hreceived, hclosed, hconnect, hderived⟩ := Client.transfer_spec h.inv hroom
  obtain ⟨s, hs⟩ := h.session
  have hbad : (packetFraming.parse t).bad = false := h.closed.symm.trans hopen
  -- the reference goes on from what it has not consumed yet
  have hparse : packetFraming.parse (t ++ bs) =
      packetFraming.resume (packetFraming.parse t) bs := packetFraming.parse_append t bs
  rw [Framing.resume, hbad, if_neg (by decide), ← h.received, ← hreceived] at hparse
  obtain ⟨c', s', hloop, hinv', hrest', hhanded', hs', hclosed', hconnect'⟩ :=
    onReceiveLoop_spec hw ((c.transfer bs).recvqCount + 1) (c.transfer bs) s hinv
      (by rw [hderived]; exact hs) (by rw [hinv.count_eq]; exact Nat.lt_succ_self _)
  rw [onReceive]
  rw [← hinv.count_eq] at hloop
  rw [hloop]
  refine ⟨hinv', hconnect'.trans (hconnect.trans h.connect), ⟨s', hs'⟩, ?_, ?_, ?_⟩
  · rw [hhanded', hderived, h.handed, hparse, List.map_append]
  · rw [hclosed', hclosed, hopen, hparse, Bool.false_or]
  · rw [hrest', hparse]

theorem run_closed (handler : Handler σ) (events : List (List ℕ+)) {c : UserClient σ}
    (pending : List UInt8) (h : c.closed = true) : run handler events c pending = (c, pending) := by
  induction events with
  | nil => rfl
  | cons ns events ih => simp only [run, Client.onEventIOReadable_closed _ _ _ h, ih]

/-- What any run of events has read, it has treated as the reference does. -/
theorem run_tracks {handler : Handler σ} (hw : WellBehaved handler) :
    ∀ (events : List (List ℕ+)) (c : UserClient σ) (t pending : List UInt8), Tracks c t →
      ∃ t', t ++ pending = t' ++ (run handler events c pending).2 ∧
        Tracks (run handler events c pending).1 t' ∧
        ((run handler events c pending).1.closed = true ∨
          (run handler events c pending).2.length ≤ pending.length - events.flatten.length) := by
  intro events
  induction events with
  | nil =>
      intro c t pending h
      exact ⟨t, rfl, h, Or.inr (Nat.le_refl _)⟩
  | cons ns events ih =>
      intro c t pending h
      obtain ⟨t1, hsplit1, h1, hprogress1⟩ := Client.onEventIOReadable_rule
        (fun c t (hc : Tracks c t) => ⟨hc.inv, hc.connect⟩) (fun c t hc => hc.replenish)
        (fun c t bs hc hopen hroom => hc.receive hw hopen hroom) ns c t pending h
      rcases hr : c.onEventIOReadable (onReceive handler) (ns.map .bytes) pending with ⟨c1, p1⟩
      rw [hr] at hsplit1 h1 hprogress1
      obtain ⟨t2, hsplit2, h2, hprogress2⟩ := ih c1 t1 p1 h1
      have hrun : run handler (ns :: events) c pending = run handler events c1 p1 := by
        simp only [run, hr]
      rw [hrun]
      refine ⟨t2, hsplit1.trans hsplit2, h2, ?_⟩
      rcases hprogress2 with hclosed | hlen
      · exact Or.inl hclosed
      · rcases hprogress1 with hclosed1 | hlen1
        · left
          rw [run_closed handler events p1 hclosed1]
          exact hclosed1
        · right
          rw [List.flatten_cons, List.length_append]
          simp only at hlen1
          omega

/-- The session has been given the packets of the reference run over all of `stream`,
    and the client is closed if the reference is. -/
def Agrees (c : UserClient σ) (stream : List UInt8) : Prop :=
  c.derived.handed = (packetFraming.parse stream).frames.map toFrame ∧
    c.closed = (packetFraming.parse stream).bad

/-- The unconsumed bytes of `stream` are in the queue, and `recvq_count_` is their
    number. -/
def Buffers (c : UserClient σ) (stream : List UInt8) : Prop :=
  bytesOf c.pool.mem c.recvq = (packetFraming.parse stream).rest ∧
    c.recvqCount = (packetFraming.parse stream).rest.length

/-- **Packets do not depend on how the stream is cut.**  A run that reads as many times
    as the stream has bytes has read all of it, or closed the client; a run that
    has read all of it, or closed the client, agrees with the reference on the
    whole stream; and as long as the client is open, the bytes read and not
    consumed are buffered. -/
theorem run_agrees {handler : Handler σ} (hw : WellBehaved handler) (mempool : MemoryPool)
    (hpool : mempool.Inv []) (hchunk : mempool.chunksize % 2 ^ 32 ≠ 0) (s : σ)
    (stream : List UInt8) (events : List (List ℕ+)) :
    (stream.length ≤ events.flatten.length →
      (run handler events (connected mempool s) stream).1.closed = true ∨
        (run handler events (connected mempool s) stream).2 = []) ∧
    ((run handler events (connected mempool s) stream).1.closed = true ∨
        (run handler events (connected mempool s) stream).2 = [] →
      Agrees (run handler events (connected mempool s) stream).1 stream) ∧
    ∃ t, stream = t ++ (run handler events (connected mempool s) stream).2 ∧
      Agrees (run handler events (connected mempool s) stream).1 t ∧
      ((run handler events (connected mempool s) stream).1.closed = false →
        Buffers (run handler events (connected mempool s) stream).1 t) := by
  have hstart : Tracks (connected mempool s) [] := by
    refine ⟨⟨⟨hpool, List.Pairwise.nil, ?_⟩, ?_, Nat.zero_le _, rfl, ?_⟩, rfl, ⟨s, rfl⟩, rfl, rfl, rfl⟩
    · exact fun v hv => absurd hv List.not_mem_nil
    · exact fun v hv => absurd hv List.not_mem_nil
    · exact Nat.pos_of_ne_zero hchunk
  obtain ⟨t, hsplit, htracks, hprogress⟩ := run_tracks hw events _ [] stream hstart
  rw [List.nil_append] at hsplit
  generalize run handler events (connected mempool s) stream = r at *
  refine ⟨?_, ?_, t, hsplit, ⟨htracks.handed, htracks.closed⟩, ?_⟩
  · intro henough
    rcases hprogress with hclosed | hlen
    · exact Or.inl hclosed
    · right
      apply List.eq_nil_of_length_eq_zero
      omega
  · rintro (hclosed | hall)
    · -- the reference has given up at `t` and does not look at the rest
      have hbad : (packetFraming.parse t).bad = true := htracks.closed.symm.trans hclosed
      have hparse := packetFraming.parse_append t r.2
      rw [← hsplit, Framing.resume, hbad, if_pos rfl] at hparse
      exact ⟨by rw [hparse]; exact htracks.handed, by rw [hparse]; exact hclosed⟩
    · rw [hall, List.append_nil] at hsplit
      rw [hsplit]
      exact ⟨htracks.handed, htracks.closed⟩
  · intro _
    have hcount := htracks.inv.count_eq
    rw [htracks.received] at hcount
    exact ⟨htracks.received, hcount⟩

/-- A session that ignores its packets. -/
def idle : Handler Unit := fun s _ _ _ c => ⟨s, c.pool, false, false⟩

theorem idle_wellBehaved : WellBehaved idle where
  returns := fun _ _ _ _ _ => rfl
  open_ := fun _ _ _ _ _ => rfl
  keeps := fun _ _ _ _ _ => ⟨rfl, id, fun _ _ => rfl⟩

/-- An empty packet with code 7 and session id 9. -/
def emptyPacket : List UInt8 := [220, 110, 10, 0, 7, 0, 0, 0, 9, 0]

/-- Two packets, read in small pieces into chunks of three bytes. -/
theorem run_agrees_pieces :
    Agrees (run idle [[3, 4], [2], List.replicate 17 1] (connected (MemoryPool.emptyPool 3) ())
      (emptyPacket ++ emptyPacket)).1 (emptyPacket ++ emptyPacket) := by
  have hrun := run_agrees idle_wellBehaved (MemoryPool.emptyPool 3) (MemoryPool.emptyPool_inv 3)
    (by decide) () (emptyPacket ++ emptyPacket) [[3, 4], [2], List.replicate 17 1]
  exact hrun.2.1 (hrun.1 (by decide))

/-- Chunks of `2 ^ 32` bytes have the length 0: `readv` has nothing to read into,
    returns 0, and the client closes. -/
theorem run_zero_length :
    (MemoryPool.emptyPool (2 ^ 32)).Inv [] ∧ 1 ≤ (MemoryPool.emptyPool (2 ^ 32)).chunksize ∧
      WellBehaved idle ∧
      (run idle [[10]] (connected (MemoryPool.emptyPool (2 ^ 32)) ()) emptyPacket).1.closed = true ∧
      ¬ Agrees (run idle [[10]] (connected (MemoryPool.emptyPool (2 ^ 32)) ()) emptyPacket).1
        emptyPacket := by
  refine ⟨MemoryPool.emptyPool_inv _, by decide, idle_wellBehaved, rfl, ?_⟩
  rintro ⟨-, hclosed⟩
  have hgood : (packetFraming.parse emptyPacket).bad = false := rfl
  rw [hgood] at hclosed
  exact absurd hclosed (by decide)

end UserClient

end Jengine.Gateway
