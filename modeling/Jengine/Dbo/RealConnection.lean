import Jengine.Dbo.Handshake
import Jengine.Lib.Channel
import Jengine.Net.Socket

/-!
# The phases of a mysql connection

`RealConnection::OnReceive`, `OnReceivePacket` and `HandleAuthResponse`
(`base/dbo_bk/internal/realconnection.cpp`).  The packets of a server are cut off the receive
queue; the first ones are the handshake's, and what comes after it goes to the data handler.
An exception leaves `OnReceive`, and nobody catches it.

The packets do not depend on how the bytes came (`run_served`), and whatever the server sends
the phases are gone through in order (`phases_inOrder`).
-/

namespace Jengine.Dbo.Internal

open Jengine.Lib Jengine.Memory RefMemoryChunk Jengine.Net
open Gateway (u32)

/-- `ConnectionPhase`. -/
inductive ConnectionPhase where
  | initHandshake
  | handshakeResponse
  | ok
deriving DecidableEq, Repr

/-- What `HandleAuthResponse` reads. -/
inductive AuthResponse where
  | err (errorcode : UInt16) (reason : List UInt8)
  | ok
  | eof (warningCount statusFlag : Nat)
  | other (flag : Nat)
deriving DecidableEq, Repr

section

variable {M : Type → Type} [Monad M] (R : Readers M)

/-- The reads of `HandleAuthResponse`. -/
def readAuthResponse : M AuthResponse := do
  let flag ← R.readFixedInteger 1
  if flag = packetErr.toNat then
    let errorcode ← R.readFixedInteger 2
    let reason ← R.readRestOfPacketString
    return .err (UInt16.ofNat errorcode) reason
  else if flag = packetOk.toNat then
    return .ok
  else if flag = packetEof.toNat then
    let warningCount ← R.readFixedInteger 2
    let statusFlag ← R.readFixedInteger 2
    return .eof warningCount statusFlag
  else
    return .other flag

end

theorem simulates_readAuthResponse (m : Bytes) :
    PacketIn.Simulates m (readAuthResponse (PacketIn.readers m))
      (readAuthResponse Reader.readers) := by
  have hint : ∀ {n : Nat}, n < 2 ^ 16 → PacketIn.Simulates m
      ((PacketIn.readers m).readFixedInteger n) (Reader.readers.readFixedInteger n) :=
    fun {n} hn => PacketIn.simulates_readFixedInteger m hn (Nat.pow_pos (by decide))
  refine (hint (by decide)).bind fun flag => .ite ?_ (.ite (.pure m _) (.ite ?_ (.pure m _)))
  · exact (hint (by decide)).bind fun _ =>
      (PacketIn.simulates_readRestOfPacketString m []).bind fun _ => .pure m _
  · exact (hint (by decide)).bind fun _ => (hint (by decide)).bind fun _ => .pure m _

/-! ### The connection -/

/-- What a call of a handler did: to the state of the handlers, and whether it closed the
    connection or threw. -/
structure CallResult (σ : Type) where
  state : σ
  closes : Bool
  throws : Bool

/-- `RealConnection::EventHandler` and `RealConnectionDataHandler`, as far as `OnReceive` calls
    them.  What their answers depend on is in their state. -/
structure ConnectionHandler (σ : Type) where
  onAuthSuccess : σ → CallResult σ
  onAuthFail : σ → Int → List UInt8 → CallResult σ
  /-- `data_handler_` is set. -/
  hasDataHandler : σ → Bool
  onReceivePacket : σ → List UInt8 → CallResult σ
  /-- The data handler takes the chunks of a packet with `Swap`. -/
  takes : σ → List UInt8 → Bool
  /-- Sending the answer fails and closes the connection. -/
  sendFails : σ → Bool
  /-- What becomes of the pool while a packet is handled. -/
  use : σ → List UInt8 → List RefMemoryChunk → MemoryPool → MemoryPool
  /-- The views of the packet and of the connection are left alone. -/
  keeps : ∀ s packet held p, MemoryPool.Keeps held p (use s packet held p)

/-- What a connection does to the code around it. -/
inductive ConnectionCall where
  | authFail (errcode : Int) (reason : List UInt8)
  /-- The answer to a greeting is sent. -/
  | send (h : InitHandshake)
  | authSuccess
  | receivePacket (packet : List UInt8)
deriving DecidableEq, Repr

/-- The members that `RealConnection` adds to `Client`, as far as the packets change them; an
    exception has ended the program if `aborted`. -/
structure Session (σ : Type) where
  connPhase : ConnectionPhase
  state : σ
  calls : List ConnectionCall
  aborted : Bool

namespace Session

variable {σ : Type} (handler : ConnectionHandler σ)

/-- An exception or an assertion in the code above. -/
def abort (s : Session σ) : Served (Session σ) := ⟨{ s with aborted := true }, false, true⟩

/-- A handler has been called; afterwards the connection is in the phase `phase`, unless the
    handler threw. -/
def called (s : Session σ) (call : ConnectionCall) (r : CallResult σ) (phase : ConnectionPhase) :
    Served (Session σ) :=
  ⟨⟨if r.throws then s.connPhase else phase, r.state, s.calls ++ [call], r.throws⟩, r.closes,
    r.throws⟩

/-- `OnReceivePacket`, where reading the packet as a greeting gives `first` and reading it as
    the response to the answer gives `answer`. -/
def onReceivePacket (first : Except Fault FirstPacket) (answer : Except Fault AuthResponse)
    (packet : List UInt8) (s : Session σ) : Served (Session σ) :=
  match s.connPhase with
  | .initHandshake =>
      match first with
      | .error _ => s.abort
      | .ok (.err code reason) =>
          s.called (.authFail code.toNat reason) (handler.onAuthFail s.state code.toNat reason)
            .initHandshake
      | .ok (.init h) =>
          s.called (.send h) ⟨s.state, handler.sendFails s.state, false⟩ .handshakeResponse
  | .handshakeResponse =>
      match answer with
      | .error _ => s.abort
      | .ok (.err errorcode reason) =>
          s.called (.authFail errorcode.toNat reason)
            (handler.onAuthFail s.state errorcode.toNat reason) .handshakeResponse
      | .ok .ok => s.called .authSuccess (handler.onAuthSuccess s.state) .ok
      | .ok (.eof _ _) =>
          s.called (.authFail (-1) (ascii "unknown"))
            (handler.onAuthFail s.state (-1) (ascii "unknown")) .handshakeResponse
      | .ok (.other _) => ⟨s, false, false⟩
  | .ok =>
      if handler.hasDataHandler s.state then
        s.called (.receivePacket packet) (handler.onReceivePacket s.state packet) .ok
      else ⟨s, false, false⟩

/-- A packet, as a byte string with its head, is handled. -/
def serve (s : Session σ) (packet : List UInt8) : Served (Session σ) :=
  s.onReceivePacket handler ((readInitHandshake Reader.readers (packet.drop 4)).map Prod.fst)
    ((readAuthResponse Reader.readers (packet.drop 4)).map Prod.fst) packet

end Session

/-- The members `RealConnection` adds to `Client`, and the packets so far, each with whether the
    connection was closed by then. -/
structure ConnectionData (σ : Type) where
  session : Session σ
  handed : List (List UInt8 × Bool)

abbrev ConnectionClient (σ : Type) := Client (ConnectionData σ)

namespace ConnectionClient

variable {σ : Type} (handler : ConnectionHandler σ)

/-- Pop a packet of the given size and handle it. -/
def receivePacket (pktSize : Nat) (c : ConnectionClient σ) : ConnectionClient σ :=
  let (data, c) := c.popReceive pktSize
  let m := c.pool.mem
  let s := c.derived.session
  let packet := bytesOf m data
  match PacketIn.readHead m (PacketIn.make data) with
  | (.error _, _) => { c with derived := ⟨{ s with aborted := true }, c.derived.handed⟩ }
  | (.ok _, pktin) =>
      let r := s.onReceivePacket handler (readInitHandshake (PacketIn.readers m) pktin).1
        (readAuthResponse (PacketIn.readers m) pktin).1 packet
      let pool := handler.use s.state packet (data ++ (c.recvq ++ c.recvp)) c.pool
      { c with
        pool := if handler.takes s.state packet then pool else pool.releaseAll data
        closed := c.closed || r.closes
        derived := ⟨r.state, c.derived.handed ++ [(packet, c.closed)]⟩ }

/-- The loop of `OnReceive`, which an exception ends. -/
def onReceiveLoop : Nat → Nat → ConnectionClient σ → ConnectionClient σ
  | 0, _, c => c
  | fuel + 1, count, c =>
      if 4 ≤ count then
        let (bs, c) := c.copyReceive 3
        let pktSize := ofLE bs + 4
        if pktSize ≤ count then
          let c := receivePacket handler pktSize c
          if c.derived.session.aborted then c else onReceiveLoop fuel (count - pktSize) c
        else c
      else c

/-- `OnReceive`.  Every pass of the loop takes at least the head of a packet off `count`. -/
def onReceive (count : Nat) (c : ConnectionClient σ) : ConnectionClient σ :=
  if c.derived.session.aborted then c else onReceiveLoop handler (count + 1) count c

/-- A connection that has just been connected. -/
def connected (mempool : MemoryPool) (state : σ) : ConnectionClient σ :=
  ⟨mempool, true, false, [], 0, [], ⟨⟨.initHandshake, state, [], false⟩, []⟩⟩

end ConnectionClient

/-! ### Packets behind each other -/

/-- The packets of a stream of bytes. -/
def packetFraming : Framing UInt8 where
  verdict b := if 4 ≤ b.length ∧ ofLE (b.take 3) + 4 ≤ b.length then .frame (ofLE (b.take 3) + 4)
    else .wait
  frame_bounds := by
    intro b n h
    split at h
    next hall =>
      cases h
      exact ⟨Nat.succ_pos _, hall.2⟩
    next => cases h
  frame_stable := by
    intro b n c h
    split at h
    next hall =>
      cases h
      have htake : (b ++ c).take 3 = b.take 3 :=
        List.take_append_of_le_length (Nat.le_trans (by decide) hall.1)
      rw [htake, if_pos (by rw [List.length_append]; omega)]
    next => cases h
  bad_stable := by
    intro b c h
    split at h <;> cases h

theorem packetFraming_ne_bad (b : List UInt8) : packetFraming.verdict b ≠ .bad := by
  simp only [packetFraming]
  split <;> exact nofun

theorem packetFraming_eq_frame {b : List UInt8} {n : Nat} :
    packetFraming.verdict b = .frame n ↔
      4 ≤ b.length ∧ n ≤ b.length ∧ n = ofLE (b.take 3) + 4 := by
  simp only [packetFraming]
  split
  next hall => simp only [Verdict.frame.injEq]; omega
  next hnot => simp only [reduceCtorEq, false_iff]; omega

namespace ConnectionClient

variable {σ : Type} (handler : ConnectionHandler σ)

/-- How a connection serves the packets of its server; an exception ends the loop. -/
def service : Service UInt8 (List UInt8) (Session σ) where
  framing := packetFraming
  note := id
  serve := Session.serve handler

def stage (c : ConnectionClient σ) : Stage (Session σ) (List UInt8) :=
  ⟨c.derived.session, c.closed, c.derived.handed⟩

/-- No view in the queue is empty. -/
def Filled (c : ConnectionClient σ) : Prop := ∀ v ∈ c.recvq, 0 < v.count

theorem serve_aborted {s : Session σ} (h : s.aborted = false) (packet : List UInt8) :
    (s.serve handler packet).state.aborted = (s.serve handler packet).stops := by
  simp only [Session.serve, Session.onReceivePacket]
  repeat' split
  all_goals first | rfl | exact h

/-- An exception has been thrown if and only if the loop was left by it. -/
theorem follow_aborted {s : Session σ} (h : s.aborted = false) (packets : List (List UInt8)) :
    ((service handler).follow s packets).2 = ((service handler).follow s packets).1.aborted := by
  induction packets generalizing s with
  | nil => exact h.symm
  | cons packet packets ih =>
    have hone : ((service handler).serve s packet).state.aborted =
        ((service handler).serve s packet).stops := serve_aborted handler h packet
    rw [Service.follow]
    split
    next hstops => rw [hone, hstops]
    next hgoes => exact ih (hone.trans (Bool.eq_false_of_not_eq_true hgoes))

/-- One packet is popped and handled. -/
theorem receivePacket_spec {c : ConnectionClient σ} (h : c.Inv) (hfilled : Filled c) {n : Nat}
    (hv : packetFraming.verdict c.received = .frame n) :
    (receivePacket handler n c).Inv ∧ Filled (receivePacket handler n c) ∧
      (receivePacket handler n c).received = c.received.drop n ∧
      stage (receivePacket handler n c) = (service handler).hand (stage c) (c.received.take n) := by
  obtain ⟨hhead, hn, hlen⟩ := packetFraming_eq_frame.mp hv
  obtain ⟨hdata, hrest, hinv, hmem, hsound, hclosed, -, hderived⟩ := Client.popReceive_spec h hn
  have hfilledData : ∀ v ∈ (c.popReceive n).1, 0 < v.count := Client.filled_cut hfilled _ _
  have hfilledRest : ∀ v ∈ (c.popReceive n).2.recvq, 0 < v.count :=
    (cut_spec c.recvq c.pool n c.recvp h.sound).filled hfilled
  rcases hpop : c.popReceive n with ⟨data, c2⟩
  rw [hpop] at hdata hrest hinv hmem hsound hclosed hderived hfilledData hfilledRest
  dsimp only at hdata hrest hinv hmem hsound hclosed hderived hfilledData hfilledRest
  rw [← hmem] at hdata
  -- what the packet is made of
  have hbound := ofLE_lt (c.received.take 3)
  rw [List.length_take_of_le (by omega)] at hbound
  have htake : (c.received.take n).length = n := List.length_take_of_le hn
  have hframe : ofLE ((c.received.take n).take 3) + 4 = (c.received.take n).length := by
    rw [List.take_take, Nat.min_eq_left (by omega), htake, hlen]
  have hsmall : n + 2 ^ 16 ≤ 2 ^ 32 := by
    have : 256 ^ 3 = 2 ^ 24 := by decide
    omega
  have hlength := congrArg List.length hdata
  rw [length_bytesOf, htake] at hlength
  have hmake := PacketIn.holds_make c2.pool.mem
    (fun v hv => hsound.fresh v (List.mem_append_left _ hv)) hfilledData (by omega)
  rw [hdata] at hmake
  obtain ⟨head, pktin, hread, hholds, hpos⟩ := hmake.readHead (by rw [htake]; exact hsmall) hframe
  have hfirst := (simulates_readInitHandshake c2.pool.mem).fst hholds (by rw [htake]; exact hsmall)
  have hanswer := (simulates_readAuthResponse c2.pool.mem).fst hholds (by rw [htake]; exact hsmall)
  rw [hpos] at hfirst hanswer
  have hserve : c2.derived.session.onReceivePacket handler
      (readInitHandshake (PacketIn.readers c2.pool.mem) pktin).1
      (readAuthResponse (PacketIn.readers c2.pool.mem) pktin).1 (c.received.take n) =
      c.derived.session.serve handler (c.received.take n) := by
    rw [hfirst, hanswer, hderived]
    rfl
  have hkeeps := handler.keeps c2.derived.session.state (c.received.take n)
    (data ++ (c2.recvq ++ c2.recvp)) c2.pool
  have heq : receivePacket handler n c =
      { c2 with
        pool :=
          if handler.takes c2.derived.session.state (c.received.take n) then
            handler.use c2.derived.session.state (c.received.take n)
              (data ++ (c2.recvq ++ c2.recvp)) c2.pool
          else (handler.use c2.derived.session.state (c.received.take n)
              (data ++ (c2.recvq ++ c2.recvp)) c2.pool).releaseAll data
        closed := c2.closed || (c.derived.session.serve handler (c.received.take n)).closes
        derived := ⟨(c.derived.session.serve handler (c.received.take n)).state,
          c2.derived.handed ++ [(c.received.take n, c2.closed)]⟩ } := by
    simp only [receivePacket, hpop, hread, hdata, hserve]
  rw [heq]
  generalize handler.use c2.derived.session.state (c.received.take n)
    (data ++ (c2.recvq ++ c2.recvp)) c2.pool = q at hkeeps ⊢
  obtain ⟨hinv3, hmem3, hsize3⟩ := MemoryPool.Inv.releaseAll data (hkeeps.inv hsound.inv)
  -- the chunks are released, or are the data handler's now
  obtain ⟨q', hq'⟩ : ∃ q', q' = (if handler.takes c2.derived.session.state (c.received.take n)
      then q else q.releaseAll data) := ⟨_, rfl⟩
  rw [← hq']
  have hpool : q'.Inv (c2.recvq ++ c2.recvp) ∧ q'.mem = q.mem ∧ q'.chunksize = q.chunksize := by
    rw [hq']
    split
    · refine ⟨?_, rfl, rfl⟩
      exact (Sound.of_append_right ⟨hkeeps.inv hsound.inv, hsound.apart, hsound.fresh⟩).inv
    · exact ⟨hinv3, hmem3, hsize3⟩
  obtain ⟨hinvQ, hmemQ, hsizeQ⟩ := hpool
  refine ⟨⟨⟨hinvQ, hinv.sound.apart, hinv.sound.fresh⟩, hinv.filled, hinv.recvp_le, hinv.count, ?_⟩,
    hfilledRest, ?_, ?_⟩
  · rw [MemoryPool.chunkLength, hsizeQ, hkeeps.chunksize]
    exact hinv.chunk_pos
  · rw [← hrest]
    simp only [Client.received]
    rw [hmemQ]
    apply bytesOf_congr
    intro v hv
    exact hkeeps.bytes v (List.mem_append_right _ (List.mem_append_left _ hv))
  · rw [hclosed, hderived]
    rfl

/-- `OnReceive` serves what is in the queue. -/
theorem onReceiveLoop_serves : ∀ (fuel : Nat) (c : ConnectionClient σ), c.Inv → Filled c →
    c.derived.session.aborted = false → c.received.length < fuel →
    ∃ c', onReceiveLoop handler fuel c.received.length c = c' ∧ c'.Inv ∧ Filled c' ∧
      (service handler).Serves (stage c) c.received (stage c') c'.received := by
  intro fuel
  induction fuel with
  | zero => exact fun c _ _ _ hfuel => absurd hfuel (Nat.not_lt_zero _)
  | succ fuel ih =>
    intro c h hfilled hgoes hfuel
    simp only [onReceiveLoop, Client.copyReceive_spec h (by decide : 3 < 2 ^ 32)]
    by_cases hall : 4 ≤ c.received.length ∧ ofLE (c.received.take 3) + 4 ≤ c.received.length
    · have hv : packetFraming.verdict c.received = .frame (ofLE (c.received.take 3) + 4) :=
        packetFraming_eq_frame.mpr ⟨hall.1, hall.2, rfl⟩
      rw [if_pos hall.1, if_pos hall.2]
      obtain ⟨hinv, hfilled', hrest, hstage⟩ := receivePacket_spec handler h hfilled hv
      have hstate := congrArg Stage.state hstage
      have haborted := serve_aborted handler hgoes
        (c.received.take (ofLE (c.received.take 3) + 4))
      have hsame : (receivePacket handler (ofLE (c.received.take 3) + 4) c).derived.session =
          (c.derived.session.serve handler
            (c.received.take (ofLE (c.received.take 3) + 4))).state := hstate
      rw [← hsame] at haborted
      rcases hstops : (c.derived.session.serve handler
        (c.received.take (ofLE (c.received.take 3) + 4))).stops with _ | _
      · rw [hstops] at haborted
        rw [if_neg (by rw [haborted]; exact Bool.false_ne_true)]
        have hlength := congrArg List.length hrest
        rw [List.length_drop] at hlength
        obtain ⟨c', hloop, hinv', hfilled'', hserves⟩ := ih _ hinv hfilled' haborted (by omega)
        rw [hlength] at hloop
        refine ⟨c', hloop, hinv', hfilled'', .frame hv hstops ?_⟩
        rw [← hstage, ← hrest]
        exact hserves
      · rw [hstops] at haborted
        rw [if_pos haborted]
        refine ⟨_, rfl, hinv, hfilled', ?_⟩
        rw [hstage, hrest]
        exact .stop hv hstops
    · have hv : packetFraming.verdict c.received = .wait := by
        simp only [packetFraming, if_neg hall]
      have hend : (if 4 ≤ c.received.length then
          if ofLE (c.received.take 3) + 4 ≤ c.received.length then
            if (receivePacket handler (ofLE (c.received.take 3) + 4) c).derived.session.aborted then
              receivePacket handler (ofLE (c.received.take 3) + 4) c
            else onReceiveLoop handler fuel (c.received.length - (ofLE (c.received.take 3) + 4))
              (receivePacket handler (ofLE (c.received.take 3) + 4) c)
          else c
        else c) = c := by
        by_cases hhead : 4 ≤ c.received.length
        · rw [if_pos hhead, if_neg fun hsize => hall ⟨hhead, hsize⟩]
        · rw [if_neg hhead]
      exact ⟨c, hend, h, hfilled, .wait hv⟩

/-- The session is that of the packets of the bytes, one after the other; and what is left of the
    bytes is in the queue, unless an exception has ended the program. -/
structure Follows (start : Session σ) (c : ConnectionClient σ) (bytes : List UInt8) : Prop where
  inv : c.Inv
  filled : Filled c
  session : (service handler).follow start (packetFraming.parse bytes).frames =
    (c.derived.session, c.derived.session.aborted)
  rest : c.derived.session.aborted = false → c.received = (packetFraming.parse bytes).rest ∧
    c.derived.handed.map Prod.fst = (packetFraming.parse bytes).frames

variable {handler} {start : Session σ} {c : ConnectionClient σ} {bytes : List UInt8}

theorem Follows.receives (h : Follows handler start c bytes) {new : List UInt8}
    (hreceives : c.Receives new) :
    Follows handler start (c.pass (onReceive handler) (.bytes new)) (bytes ++ new) := by
  obtain ⟨hinv, hreceived, hcount, -, -, hderived⟩ := hreceives.spec h.inv
  have hfilled : Filled (c.replenish.transfer new) := by
    intro v hv
    simp only [Client.transfer, Client.recvq_replenish] at hv
    rcases List.mem_append.mp hv with hv | hv
    · exact h.filled v hv
    · exact Client.filled_cut (Client.replenish_spec h.inv).1.filled _ _ v hv
  have hpass : c.pass (onReceive handler) (.bytes new) =
      onReceive handler (c.replenish.transfer new).recvqCount (c.replenish.transfer new) := by
    obtain ⟨hopen, hroom, hne, hfits⟩ := hreceives
    exact (Client.pass_open (onReceive handler) hopen hroom).2.2.2 new hne hfits
  obtain ⟨hframes, hrest⟩ := packetFraming.parse_append_of_ne_bad packetFraming_ne_bad bytes new
  rcases haborted : c.derived.session.aborted with _ | _
  · obtain ⟨hold, hhanded⟩ := h.rest haborted
    have hstart : (c.replenish.transfer new).derived.session.aborted = false := by
      rw [hderived, haborted]
    obtain ⟨c', hloop, hinv', hfilled', hserves⟩ := onReceiveLoop_serves handler
      ((c.replenish.transfer new).recvqCount + 1) _ hinv hfilled hstart
      (by rw [hcount, hreceived]; exact Nat.lt_succ_self _)
    rw [← hinv.count_eq] at hloop
    obtain ⟨hstate, hon⟩ := hserves.eq_follow packetFraming_ne_bad
    rw [hreceived, hold] at hstate hon
    have hsame : (stage (c.replenish.transfer new)).state = c.derived.session := by
      rw [stage, hderived]
    have hnoted : (stage (c.replenish.transfer new)).handed = c.derived.handed := by
      rw [stage, hderived]
    rw [hsame] at hstate hon
    rw [hnoted] at hon
    have hsession := h.session
    rw [haborted] at hsession
    have hflag := (follow_aborted handler haborted
      (packetFraming.parse ((packetFraming.parse bytes).rest ++ new)).frames).trans
      (congrArg Session.aborted hstate.symm)
    rw [hpass, onReceive, if_neg (by rw [hstart]; exact Bool.false_ne_true), hloop]
    refine ⟨hinv', hfilled', ?_, fun hgoes => ?_⟩
    · rw [hframes, Service.follow_append, hsession, if_neg Bool.false_ne_true]
      exact Prod.ext hstate.symm hflag
    · obtain ⟨hleft, hnew⟩ := hon (hflag.trans hgoes)
      rw [hframes, hrest]
      refine ⟨hleft, ?_⟩
      rw [hhanded] at hnew
      exact hnew.trans (congrArg _ (List.map_id _))
  · have hstop : (c.replenish.transfer new).derived.session.aborted = true := by
      rw [hderived, haborted]
    rw [hpass, onReceive, if_pos hstop]
    refine ⟨hinv, hfilled, ?_, fun hgoes => Bool.noConfusion (hstop.symm.trans hgoes)⟩
    rw [hframes, Service.follow_append, h.session, if_pos haborted, hderived]

theorem Follows.rests (h : Follows handler start c bytes) (a : Pass)
    (hnot : ∀ new, a = .bytes new → ¬ c.Receives new) :
    Follows handler start (c.pass (onReceive handler) a) bytes := by
  rcases Client.pass_cases (onReceive handler) h.inv a with ⟨bs, heq, hreceives, -⟩ | ⟨-, hrests⟩
  · exact absurd hreceives (hnot bs heq)
  · refine ⟨hrests.inv, ?_, ?_, ?_⟩
    · intro v hv
      rw [Client.recvq_pass (onReceive handler) hnot] at hv
      exact h.filled v hv
    · rw [hrests.derived]
      exact h.session
    · rw [hrests.derived, hrests.received]
      exact h.rest

theorem connected_inv {mempool : MemoryPool} (hpool : mempool.Inv [])
    (hchunk : mempool.chunksize % 2 ^ 32 ≠ 0) (state : σ) : (connected mempool state).Inv := by
  refine ⟨⟨hpool, List.Pairwise.nil, ?_⟩, ?_, Nat.zero_le _, rfl, Nat.pos_of_ne_zero hchunk⟩
  · exact fun v hv => absurd hv List.not_mem_nil
  · exact fun v hv => absurd hv List.not_mem_nil

theorem follows_connected {mempool : MemoryPool} (hpool : mempool.Inv [])
    (hchunk : mempool.chunksize % 2 ^ 32 ≠ 0) (state : σ) :
    Follows handler (connected mempool state).derived.session (connected mempool state) [] where
  inv := connected_inv hpool hchunk state
  filled := fun _ hv => absurd hv List.not_mem_nil
  session := rfl
  rest := fun _ => ⟨rfl, rfl⟩

variable (handler) in
/-- **What a connection does depends on the bytes of its server only**, and not on the pieces in
    which they arrive, are read and lie in chunks: the calls that it makes, its phase and
    whether it ends the program are those of the packets of the bytes that have been taken, each
    handled once and in order; and until it ends the program, what is left over is in the
    queue. -/
theorem run_served {mempool : MemoryPool} (hpool : mempool.Inv [])
    (hchunk : mempool.chunksize % 2 ^ 32 ≠ 0) (state : σ) (as : List Socket.Action) :
    let s := run (Socket.step (onReceive handler)) ⟨connected mempool state, []⟩ as
    ∃ taken, Socket.arrived as = taken ++ s.pending ∧
      s.client.derived.session = ((service handler).follow ⟨.initHandshake, state, [], false⟩
        (packetFraming.parse taken).frames).1 ∧
      (s.client.derived.session.aborted = false →
        s.client.received = (packetFraming.parse taken).rest ∧
          s.client.derived.handed.map Prod.fst = (packetFraming.parse taken).frames) := by
  intro s
  obtain ⟨taken, harrived, hfollows⟩ := Socket.run_taken
    (I := Follows handler ⟨.initHandshake, state, [], false⟩)
    (fun _ _ _ h hreceives => h.receives hreceives) (fun _ _ a h hnot => h.rests a hnot)
    (follows_connected hpool hchunk state) as
  exact ⟨taken, harrived, (congrArg Prod.fst hfollows.session).symm, hfollows.rest⟩

/-! ### The order of the phases -/

/-- Nothing but failures. -/
def Refusals (calls : List ConnectionCall) : Prop :=
  ∀ call ∈ calls, ∃ errcode reason, call = .authFail errcode reason

/-- What has been called up to a phase.  Before the answer to the greeting there are only
    failures, and so there are between the answer and the success, if it comes to that; there is
    one answer and one success, and after it only packets for the data handler. -/
def InOrder (calls : List ConnectionCall) : ConnectionPhase → Prop
  | .initHandshake => Refusals calls
  | .handshakeResponse => ∃ before h after, calls = before ++ .send h :: after ∧
      Refusals before ∧ Refusals after
  | .ok => ∃ before h after, ∃ packets : List (List UInt8),
      calls = before ++
          .send h :: (after ++ .authSuccess :: packets.map ConnectionCall.receivePacket) ∧
        Refusals before ∧ Refusals after

theorem Refusals.snoc {calls : List ConnectionCall} (h : Refusals calls) (errcode : Int)
    (reason : List UInt8) : Refusals (calls ++ [.authFail errcode reason]) := by
  intro call hcall
  rcases List.mem_append.mp hcall with hold | hnew
  · exact h call hold
  · exact ⟨errcode, reason, List.mem_singleton.mp hnew⟩

theorem InOrder.refused {calls : List ConnectionCall} {phase : ConnectionPhase}
    (h : InOrder calls phase) (hphase : phase ≠ .ok) (errcode : Int) (reason : List UInt8) :
    InOrder (calls ++ [.authFail errcode reason]) phase := by
  cases phase with
  | initHandshake => exact Refusals.snoc h errcode reason
  | handshakeResponse =>
    obtain ⟨before, i, after, rfl, hbefore, hafter⟩ := h
    exact ⟨before, i, after ++ [.authFail errcode reason], by simp, hbefore,
      hafter.snoc errcode reason⟩
  | ok => exact absurd rfl hphase

/-- The calls are in order.  If a handler threw, the phase is still the one before its call. -/
def Ordered (s : Session σ) : Prop :=
  ∃ phase, InOrder s.calls phase ∧ (s.aborted = false → s.connPhase = phase)

theorem called_phase {s : Session σ} {call : ConnectionCall} {r : CallResult σ}
    {phase : ConnectionPhase} (hgoes : (s.called call r phase).state.aborted = false) :
    (s.called call r phase).state.connPhase = phase :=
  if_neg fun hthrows => Bool.noConfusion (hthrows.symm.trans hgoes)

/-- A packet is handled in order. -/
theorem serve_ordered {s : Session σ} (h : InOrder s.calls s.connPhase) (packet : List UInt8) :
    Ordered (s.serve handler packet).state := by
  rcases hphase : s.connPhase with _ | _ | _
  · rw [hphase] at h
    simp only [Session.serve, Session.onReceivePacket, hphase]
    split
    · exact ⟨_, h, fun _ => hphase⟩
    · exact ⟨_, h.refused nofun _ _, called_phase⟩
    · next i _ => exact ⟨.handshakeResponse,
        ⟨s.calls, i, [], rfl, h, fun _ hc => absurd hc List.not_mem_nil⟩, fun _ => rfl⟩
  · rw [hphase] at h
    simp only [Session.serve, Session.onReceivePacket, hphase]
    split
    · exact ⟨_, h, fun _ => hphase⟩
    · exact ⟨_, h.refused nofun _ _, called_phase⟩
    · obtain ⟨before, i, after, hcalls, hbefore, hafter⟩ := h
      refine ⟨.ok, ⟨before, i, after, [], ?_, hbefore, hafter⟩,
        called_phase⟩
      simp only [Session.called, hcalls, List.map_nil, List.append_assoc, List.cons_append]
    · exact ⟨_, h.refused nofun _ _, called_phase⟩
    · exact ⟨_, h, fun _ => hphase⟩
  · rw [hphase] at h
    simp only [Session.serve, Session.onReceivePacket, hphase]
    split
    · obtain ⟨before, i, after, packets, hcalls, hbefore, hafter⟩ := h
      refine ⟨.ok, ⟨before, i, after, packets ++ [packet], ?_, hbefore, hafter⟩,
        called_phase⟩
      simp only [Session.called, hcalls, List.map_append, List.map_cons, List.map_nil,
        List.append_assoc, List.cons_append]
    · exact ⟨_, h, fun _ => hphase⟩

variable (handler) in
/-- **The phases are gone through in order, whatever a server sends.**  The answer is sent once at
    most, and only before that can the greeting be an error; the success is reported once at
    most, after the answer; and the data handler is given packets only after the success. -/
theorem phases_inOrder {mempool : MemoryPool} (hpool : mempool.Inv [])
    (hchunk : mempool.chunksize % 2 ^ 32 ≠ 0) (state : σ) (as : List Socket.Action) :
    Ordered (run (Socket.step (onReceive handler)) ⟨connected mempool state, []⟩
      as).client.derived.session := by
  obtain ⟨taken, -, hsession, -⟩ := run_served handler hpool hchunk state as
  rw [hsession]
  have hstart : InOrder [] .initHandshake := fun _ hc => absurd hc List.not_mem_nil
  refine Service.follow_keeps (service handler) (t := ⟨.initHandshake, state, [], false⟩)
    (I := fun s : Session σ => InOrder s.calls s.connPhase ∧ s.aborted = false) ?_ ?_
    ⟨hstart, rfl⟩ _
  · exact fun s h => ⟨_, h.1, fun _ => rfl⟩
  · intro s packet h
    have hserve : Ordered (s.serve handler packet).state := serve_ordered h.1 packet
    refine ⟨hserve, fun hgoes => ?_⟩
    obtain ⟨phase, horder, hphase⟩ := hserve
    have haborted := (serve_aborted handler h.2 packet).trans hgoes
    rw [← hphase haborted] at horder
    exact ⟨horder, haborted⟩

/-! ### A connection that is authorized -/

/-- A packet of a server: a sequence number and a payload. -/
structure ServerPacket where
  sequenceId : UInt8
  payload : List UInt8
deriving DecidableEq, Repr

/-- The packet with its head. -/
def ServerPacket.encode (p : ServerPacket) : List UInt8 :=
  toLE 3 p.payload.length ++ p.sequenceId :: p.payload

/-- A server that does not split what it sends. -/
def serverCoding : Coding UInt8 ServerPacket where
  framing := packetFraming
  encode := ServerPacket.encode
  Fits p := p.payload.length < 2 ^ 24
  framed := by
    intro p h
    have htake : p.encode.take 3 = toLE 3 p.payload.length := List.take_left' (length_toLE 3 _)
    have hlen : p.encode.length = p.payload.length + 4 := by
      rw [ServerPacket.encode, List.length_append, length_toLE, List.length_cons]
      omega
    exact packetFraming_eq_frame.mpr ⟨by omega, Nat.le_refl _, by
      rw [htake, ofLE_toLE_of_lt h, hlen]⟩

theorem drop_encode (p : ServerPacket) : p.encode.drop 4 = p.payload := by
  rw [ServerPacket.encode, show 4 = 3 + 1 from rfl, ← List.drop_drop,
    List.drop_left' (length_toLE 3 _)]
  rfl

/-- An authorized connection hands on every packet. -/
theorem follow_packets (hthrows : ∀ t p, (handler.onReceivePacket t p).throws = false)
    (hdata : ∀ t, handler.hasDataHandler t = true) (packets : List (List UInt8)) (state : σ)
    (calls : List ConnectionCall) :
    ∃ state', (service handler).follow ⟨.ok, state, calls, false⟩ packets =
      (⟨.ok, state', calls ++ packets.map ConnectionCall.receivePacket, false⟩, false) := by
  induction packets generalizing state calls with
  | nil => exact ⟨state, by rw [List.map_nil, List.append_nil]; rfl⟩
  | cons packet packets ih =>
    obtain ⟨state', hrest⟩ := ih (handler.onReceivePacket state packet).state
      (calls ++ [.receivePacket packet])
    refine ⟨state', ?_⟩
    have hserve : (service handler).serve ⟨.ok, state, calls, false⟩ packet =
        ⟨⟨.ok, (handler.onReceivePacket state packet).state, calls ++ [.receivePacket packet],
          false⟩, (handler.onReceivePacket state packet).closes, false⟩ := by
      simp only [service, Session.serve, Session.onReceivePacket, hdata, if_true, Session.called,
        hthrows, ite_self]
    rw [Service.follow, hserve, if_neg Bool.false_ne_true, hrest, List.append_assoc]
    rfl

variable (handler) in
/-- **A server that greets and accepts the answer has its packets handed on.**  When all it sent
    has been read, in whatever pieces, the greeting has been answered, the success reported, and
    the data handler given every further packet, in order and once. -/
theorem run_authorized (hsuccess : ∀ t, (handler.onAuthSuccess t).throws = false)
    (hthrows : ∀ t p, (handler.onReceivePacket t p).throws = false)
    (hdata : ∀ t, handler.hasDataHandler t = true) {mempool : MemoryPool}
    (hpool : mempool.Inv []) (hchunk : mempool.chunksize % 2 ^ 32 ≠ 0) (state : σ) {g : Greeting}
    (hg : g.WellFormed) (sequenceId sequenceId' : UInt8) (okRest : List UInt8)
    (packets : List ServerPacket)
    (hfits : ∀ p ∈ (⟨sequenceId, g.encode⟩ :: ⟨sequenceId', packetOk :: okRest⟩ :: packets :
      List ServerPacket), p.payload.length < 2 ^ 24)
    (as : List Socket.Action)
    (hsent : Socket.arrived as = (⟨sequenceId, g.encode⟩ :: ⟨sequenceId', packetOk :: okRest⟩ ::
      packets : List ServerPacket).flatMap ServerPacket.encode)
    (hread :
      (run (Socket.step (onReceive handler)) ⟨connected mempool state, []⟩ as).pending = []) :
    let s := (run (Socket.step (onReceive handler)) ⟨connected mempool state, []⟩ as).client
    s.derived.session.connPhase = .ok ∧ s.received = [] ∧
      s.derived.session.calls = .send g.initHandshake :: .authSuccess ::
        packets.map fun p => .receivePacket p.encode := by
  intro s
  obtain ⟨taken, harrived, hsession, hrest⟩ := run_served handler hpool hchunk state as
  rw [hread, List.append_nil] at harrived
  have hnone : serverCoding.framing.verdict [] = .wait := rfl
  have hparse := serverCoding.parse_flatMap hfits hnone
  rw [List.append_nil] at hparse
  have hframes : packetFraming.parse taken =
      ⟨(⟨sequenceId, g.encode⟩ :: ⟨sequenceId', packetOk :: okRest⟩ :: packets :
        List ServerPacket).map ServerPacket.encode, false, []⟩ := by
    rw [← harrived, hsent]
    exact hparse
  rw [hframes] at hsession hrest
  -- the greeting is answered
  have hgreeting : (service handler).serve ⟨.initHandshake, state, [], false⟩
      (ServerPacket.encode ⟨sequenceId, g.encode⟩) =
      ⟨⟨.handshakeResponse, state, [.send g.initHandshake], false⟩, handler.sendFails state,
        false⟩ := by
    simp only [service, Session.serve, drop_encode, Reader.readInitHandshake_encode hg,
      Session.onReceivePacket, Except.map, Session.called]
    rfl
  -- the answer is accepted
  have haccepted : (service handler).serve
      ⟨.handshakeResponse, state, [.send g.initHandshake], false⟩
      (ServerPacket.encode ⟨sequenceId', packetOk :: okRest⟩) =
      ⟨⟨.ok, (handler.onAuthSuccess state).state, [.send g.initHandshake, .authSuccess], false⟩,
        (handler.onAuthSuccess state).closes, false⟩ := by
    have hok : (readAuthResponse Reader.readers (packetOk :: okRest)).map Prod.fst = .ok .ok := by
      rw [readAuthResponse]
      rfl
    simp only [service, Session.serve, drop_encode, hok, Session.onReceivePacket, Session.called,
      hsuccess]
    rfl
  obtain ⟨state', hpackets⟩ := follow_packets hthrows hdata (packets.map ServerPacket.encode)
    (handler.onAuthSuccess state).state [.send g.initHandshake, .authSuccess]
  have hfinal : s.derived.session = ⟨.ok, state', [.send g.initHandshake, .authSuccess] ++
      (packets.map ServerPacket.encode).map ConnectionCall.receivePacket, false⟩ := by
    rw [hsession, List.map_cons, List.map_cons, Service.follow, hgreeting, if_neg Bool.false_ne_true,
      Service.follow, haccepted, if_neg Bool.false_ne_true, hpackets]
  refine ⟨by rw [hfinal], (hrest (congrArg Session.aborted hfinal)).1, ?_⟩
  rw [hfinal, List.map_map]
  rfl

/-! ### A connection that is let in -/

/-- A data handler that does nothing with its packets. -/
def attentive : ConnectionHandler Unit where
  onAuthSuccess _ := ⟨(), false, false⟩
  onAuthFail _ _ _ := ⟨(), false, false⟩
  hasDataHandler _ := true
  onReceivePacket _ _ := ⟨(), false, false⟩
  takes _ _ := false
  sendFails _ := false
  use _ _ _ p := p
  keeps _ _ _ _ := ⟨rfl, fun h => h, fun _ _ => rfl⟩

def greeted : List ServerPacket :=
  [⟨0, greeting.encode⟩, ⟨2, [packetOk, 0, 0]⟩, ⟨1, [7]⟩, ⟨2, [8, 9]⟩]

/-- The greeting comes in two pieces, and what is behind it in pieces as well. -/
def welcome : List Socket.Action :=
  [.arrive ((greeted.flatMap ServerPacket.encode).take 50),
    .readable [.bytes ⟨30, by decide⟩, .bytes ⟨30, by decide⟩],
    .arrive (((greeted.flatMap ServerPacket.encode).drop 50).take 35),
    .readable [.bytes ⟨100, by decide⟩],
    .arrive ((greeted.flatMap ServerPacket.encode).drop 85),
    .readable [.bytes ⟨1, by decide⟩, .bytes ⟨99, by decide⟩]]

/-- Where it ends. -/
def welcomed : Socket (ConnectionData Unit) :=
  run (Socket.step (onReceive attentive)) ⟨connected (MemoryPool.emptyPool 128) (), []⟩ welcome

theorem run_authorized_welcome :
    welcomed.client.derived.session.connPhase = .ok ∧ welcomed.client.received = [] ∧
      welcomed.client.derived.session.calls = .send greeting.initHandshake :: .authSuccess ::
        ([⟨1, [7]⟩, ⟨2, [8, 9]⟩] : List ServerPacket).map fun p => .receivePacket p.encode := by
  rw [welcomed]
  exact run_authorized attentive (fun _ => rfl) (fun _ _ => rfl) (fun _ => rfl)
    (MemoryPool.emptyPool_inv 128) (by decide) () wellFormed_greeting 0 2 [0, 0]
    [⟨1, [7]⟩, ⟨2, [8, 9]⟩] (by decide) welcome (by decide +kernel) (by decide +kernel)

theorem run_served_welcome :
    ∃ taken, Socket.arrived welcome = taken ++ welcomed.pending ∧
      welcomed.client.derived.session = ((service attentive).follow ⟨.initHandshake, (), [], false⟩
        (packetFraming.parse taken).frames).1 ∧
      (welcomed.client.derived.session.aborted = false →
        welcomed.client.received = (packetFraming.parse taken).rest ∧
          welcomed.client.derived.handed.map Prod.fst = (packetFraming.parse taken).frames) := by
  rw [welcomed]
  exact run_served attentive (MemoryPool.emptyPool_inv 128) (by decide) () welcome

theorem phases_inOrder_welcome : Ordered welcomed.client.derived.session := by
  rw [welcomed]
  exact phases_inOrder attentive (MemoryPool.emptyPool_inv 128) (by decide) () welcome

end ConnectionClient

end Jengine.Dbo.Internal
