import Jengine.Cluster.Handlers
import Jengine.Lib.Serving
import Jengine.Net.Passes

/-!
# The frame loop of a connector

`Connector::OnReceive` (`base/cluster/nodemonitor.cpp`) cuts messages off the receive queue
and handles them; what is left when it returns must wait for more bytes, or the
connection must have been closed.  A length word that no message has is reported by a
warning only: the loop ends, the connection stays open, and the bytes behind the length
are never looked at.

`NodeMonitor` models all connections of a node and knows of a connector the bytes of its
queue.  Here one connector is modelled with the chunks of `Client`, and the handler it is
given is a parameter.
-/

namespace Jengine.Cluster

open Jengine.Lib Jengine.Memory RefMemoryChunk Jengine.Net

/-- What a call of a handler did: to the state of the handler, and whether it closed the
    connection or threw. -/
structure HandlerResult (σ : Type) where
  state : σ
  closes : Bool
  throws : Bool

/-- `Connector::EventHandler`, as far as `OnReceive` calls it.  What its answers depend on
    is in its state. -/
structure EventHandler (σ : Type) where
  onConnectorAuthSuccess : σ → NodeInfo → HandlerResult σ
  onConnectorReceiveMessage : σ → Option NodeInfo → Message → HandlerResult σ
  /-- What becomes of the pool while a message is handled. -/
  use : σ → Message → List RefMemoryChunk → MemoryPool → MemoryPool
  /-- The views of the message and of the connector are left alone. -/
  keeps : ∀ s msg held p, MemoryPool.Keeps held p (use s msg held p)

/-- What the handling of a message depends on: `info_` and the state of the handler. -/
structure Peer (σ : Type) where
  info : Option NodeInfo
  state : σ

/-- The members `Connector` adds to `Client`, and the messages handled so far, each with
    whether the connection was closed by then. -/
structure ConnectorData (σ : Type) where
  peer : Peer σ
  handed : List (Message × Bool)

abbrev ConnectorClient (σ : Type) := Client (ConnectorData σ)

namespace ConnectorClient

variable {σ : Type} (cfg : Configure) (handler : EventHandler σ)

/-- `HandleInternalMessage`, with whether it calls `Close` or throws. -/
def handleInternalMessage (peer : Peer σ) (msg : Message) : Peer σ × Bool :=
  if msg.code = internalAuth then
    match NodeMonitor.readAuth cfg msg.payload with
    | none => (peer, true)
    | some ((nodeid, passed), _) =>
        if passed then
          match cfg.findNodeInfoByID nodeid with
          | some info =>
              let r := handler.onConnectorAuthSuccess peer.state info
              (⟨some info, r.state⟩, r.closes || r.throws)
          | none => ({ peer with info := none }, true)
        else (peer, true)
  else (peer, false)

/-- The body of the `try` of `OnReceive`, with whether the connection is closed by it or
    by its exception. -/
def handleMessage (peer : Peer σ) (msg : Message) : Peer σ × Bool :=
  if !msg.receiver.valid && peer.info.isNone then handleInternalMessage cfg handler peer msg
  else
    let r := handler.onConnectorReceiveMessage peer.state peer.info msg
    ({ peer with state := r.state }, r.closes || r.throws)

/-- Pop a message of the given length and handle it; its chunks are released when it is
    destroyed. -/
def receiveMessage (pktlen : Nat) (c : ConnectorClient σ) : ConnectorClient σ :=
  let (data, c) := c.popReceive pktlen
  let msg := Message.ofFrame (bytesOf c.pool.mem data)
  let (peer, closes) := handleMessage cfg handler c.derived.peer msg
  let pool := handler.use c.derived.peer.state msg (data ++ (c.recvq ++ c.recvp)) c.pool
  { c with
    pool := pool.releaseAll data
    closed := c.closed || closes
    derived := ⟨peer, c.derived.handed ++ [(msg, c.closed)]⟩ }

/-- The loop of `OnReceive`.  A length out of the range is logged, and nothing else. -/
def onReceiveLoop : Nat → Nat → ConnectorClient σ → ConnectorClient σ
  | 0, _, c => c
  | fuel + 1, count, c =>
      if Message.headSize ≤ count then
        let (bs, c) := c.copyReceive 4
        let pktlen := ofLE bs
        if Message.headSize ≤ pktlen ∧ pktlen ≤ count then
          onReceiveLoop fuel (count - pktlen) (receiveMessage cfg handler pktlen c)
        else c
      else c

/-- `OnReceive`.  Every pass that does not end the loop takes at least `HEAD_SIZE` bytes
    off `count`. -/
def onReceive (count : Nat) (c : ConnectorClient σ) : ConnectorClient σ :=
  onReceiveLoop cfg handler (count + 1) count c

/-- A connector that has just been connected. -/
def connected (mempool : MemoryPool) (state : σ) : ConnectorClient σ :=
  ⟨mempool, true, false, [], 0, [], ⟨⟨none, state⟩, []⟩⟩

/-! ### The loop on bytes -/

theorem frontFrame_eq_some {b : List UInt8} {n : Nat} :
    NodeMonitor.frontFrame b = some n ↔
      Message.headSize ≤ b.length ∧ Message.headSize ≤ n ∧ n ≤ b.length ∧ n = ofLE (b.take 4) := by
  simp only [NodeMonitor.frontFrame, Option.ite_none_right_eq_some, Option.some.injEq]
  constructor
  · rintro ⟨⟨hhead, hlow, hhigh⟩, rfl⟩
    exact ⟨hhead, hlow, hhigh, rfl⟩
  · rintro ⟨hhead, hlow, hhigh, rfl⟩
    exact ⟨⟨hhead, hlow, hhigh⟩, rfl⟩

theorem frontFrame_eq_none {b : List UInt8} :
    NodeMonitor.frontFrame b = none ↔
      ¬ (Message.headSize ≤ b.length ∧ Message.headSize ≤ ofLE (b.take 4) ∧
        ofLE (b.take 4) ≤ b.length) := by
  simp only [NodeMonitor.frontFrame, ite_eq_right_iff, reduceCtorEq, imp_false]

/-- Messages behind each other.  The loop does not know of a bad front. -/
def messageFraming : Framing UInt8 where
  verdict b := ((NodeMonitor.frontFrame b).map .frame).getD .wait
  frame_bounds := by
    intro b n h
    rcases hfront : NodeMonitor.frontFrame b with _ | k
    · rw [hfront] at h
      cases h
    · rw [hfront] at h
      cases h
      obtain ⟨-, hlow, hhigh, -⟩ := frontFrame_eq_some.mp hfront
      exact ⟨Nat.lt_of_lt_of_le (by decide) hlow, hhigh⟩
  frame_stable := by
    intro b n c h
    rcases hfront : NodeMonitor.frontFrame b with _ | k
    · rw [hfront] at h
      cases h
    · rw [hfront] at h
      cases h
      obtain ⟨hhead, hlow, hhigh, hlen⟩ := frontFrame_eq_some.mp hfront
      have htake : (b ++ c).take 4 = b.take 4 :=
        List.take_append_of_le_length (Nat.le_trans (by decide) hhead)
      rw [frontFrame_eq_some.mpr ⟨by rw [List.length_append]; omega, hlow,
        by rw [List.length_append]; omega, hlen.trans (by rw [htake])⟩]
      rfl
  bad_stable := by
    intro b c h
    rcases hfront : NodeMonitor.frontFrame b with _ | k <;>
      · rw [hfront] at h
        cases h

theorem verdict_of_some {b : List UInt8} {n : Nat} (h : NodeMonitor.frontFrame b = some n) :
    messageFraming.verdict b = .frame n := by
  simp only [messageFraming, h, Option.map_some, Option.getD_some]

theorem verdict_of_none {b : List UInt8} (h : NodeMonitor.frontFrame b = none) :
    messageFraming.verdict b = .wait := by
  simp only [messageFraming, h, Option.map_none, Option.getD_none]

theorem frontFrame_of_frame {b : List UInt8} {n : Nat} (h : messageFraming.verdict b = .frame n) :
    NodeMonitor.frontFrame b = some n := by
  rcases hfront : NodeMonitor.frontFrame b with _ | k
  · cases (verdict_of_none hfront).symm.trans h
  · cases (verdict_of_some hfront).symm.trans h
    rfl

theorem frontFrame_of_wait {b : List UInt8} (h : messageFraming.verdict b = .wait) :
    NodeMonitor.frontFrame b = none := by
  rcases hfront : NodeMonitor.frontFrame b with _ | k
  · rfl
  · cases (verdict_of_some hfront).symm.trans h

theorem verdict_ne_bad (b : List UInt8) : messageFraming.verdict b ≠ .bad := by
  intro h
  rcases hfront : NodeMonitor.frontFrame b with _ | k
  · cases (verdict_of_none hfront).symm.trans h
  · cases (verdict_of_some hfront).symm.trans h

/-- How a connector serves the messages it receives; nothing that happens in a handler ends
    the loop. -/
def service : Service UInt8 Message (Peer σ) where
  framing := messageFraming
  note := Message.ofFrame
  serve peer frame :=
    let r := handleMessage cfg handler peer (Message.ofFrame frame)
    ⟨r.1, r.2, false⟩

def stage (c : ConnectorClient σ) : Stage (Peer σ) Message :=
  ⟨c.derived.peer, c.closed, c.derived.handed⟩

/-- One message is popped and handled. -/
theorem receiveMessage_spec {c : ConnectorClient σ} (h : c.Inv) {n : Nat}
    (hn : n ≤ c.received.length) :
    (receiveMessage cfg handler n c).Inv ∧
      (receiveMessage cfg handler n c).received = c.received.drop n ∧
      (receiveMessage cfg handler n c).connect = c.connect ∧
      stage (receiveMessage cfg handler n c) =
        (service cfg handler).hand (stage c) (c.received.take n) := by
  obtain ⟨hdata, hrest, hinv, hmem, hsound, hclosed, hconnect, hderived⟩ :=
    Client.popReceive_spec h hn
  rcases hpop : c.popReceive n with ⟨data, c2⟩
  rw [hpop] at hdata hrest hinv hmem hsound hclosed hconnect hderived
  dsimp only at hdata hrest hinv hmem hsound hclosed hconnect hderived
  rw [← hmem] at hdata
  have hkeeps := handler.keeps c2.derived.peer.state (Message.ofFrame (bytesOf c2.pool.mem data))
    (data ++ (c2.recvq ++ c2.recvp)) c2.pool
  have heq : receiveMessage cfg handler n c =
      { c2 with
        pool := (handler.use c2.derived.peer.state (Message.ofFrame (bytesOf c2.pool.mem data))
          (data ++ (c2.recvq ++ c2.recvp)) c2.pool).releaseAll data
        closed := c2.closed ||
          (handleMessage cfg handler c2.derived.peer (Message.ofFrame (bytesOf c2.pool.mem data))).2
        derived :=
          ⟨(handleMessage cfg handler c2.derived.peer
              (Message.ofFrame (bytesOf c2.pool.mem data))).1,
            c2.derived.handed ++ [(Message.ofFrame (bytesOf c2.pool.mem data), c2.closed)]⟩ } := by
    simp only [receiveMessage, hpop]
  rw [heq]
  generalize handler.use c2.derived.peer.state (Message.ofFrame (bytesOf c2.pool.mem data))
    (data ++ (c2.recvq ++ c2.recvp)) c2.pool = q at hkeeps ⊢
  obtain ⟨hinv3, hmem3, hsize3⟩ := MemoryPool.Inv.releaseAll data (hkeeps.inv hsound.inv)
  refine ⟨⟨⟨hinv3, hinv.sound.apart, hinv.sound.fresh⟩, hinv.filled, hinv.recvp_le, hinv.count,
    ?_⟩, ?_, hconnect, ?_⟩
  · rw [MemoryPool.chunkLength, hsize3, hkeeps.chunksize]
    exact hinv.chunk_pos
  · rw [← hrest]
    simp only [Client.received]
    rw [hmem3]
    apply bytesOf_congr
    intro v hv
    exact hkeeps.bytes v (List.mem_append_right _ (List.mem_append_left _ hv))
  · rw [hdata, hclosed, hderived]
    rfl

/-- `OnReceive` serves what is in the queue. -/
theorem onReceiveLoop_serves : ∀ (fuel : Nat) (c : ConnectorClient σ), c.Inv →
    c.received.length < fuel →
    ∃ c', onReceiveLoop cfg handler fuel c.received.length c = c' ∧ c'.Inv ∧
      c'.connect = c.connect ∧
      (service cfg handler).Serves (stage c) c.received (stage c') c'.received := by
  intro fuel
  induction fuel with
  | zero => exact fun c _ hfuel => absurd hfuel (Nat.not_lt_zero _)
  | succ fuel ih =>
      intro c h hfuel
      simp only [onReceiveLoop, Client.copyReceive_spec h (by decide : 4 < 2 ^ 32)]
      by_cases hhead : Message.headSize ≤ c.received.length
      · rw [if_pos hhead]
        by_cases hall : Message.headSize ≤ ofLE (c.received.take 4) ∧
            ofLE (c.received.take 4) ≤ c.received.length
        · rw [if_pos hall]
          obtain ⟨hinv, hrest, hconnect, hstage⟩ :=
            receiveMessage_spec cfg handler h hall.2
          have hfront : NodeMonitor.frontFrame c.received = some (ofLE (c.received.take 4)) :=
            frontFrame_eq_some.mpr ⟨hhead, hall.1, hall.2, rfl⟩
          have hlength := congrArg List.length hrest
          rw [List.length_drop] at hlength
          have hpos : 0 < Message.headSize := by decide
          obtain ⟨c', hloop, hinv', hconnect', hserves⟩ := ih _ hinv (by omega)
          rw [hlength] at hloop
          refine ⟨c', hloop, hinv', hconnect'.trans hconnect, .frame (verdict_of_some hfront) rfl ?_⟩
          rw [← hstage, ← hrest]
          exact hserves
        · rw [if_neg hall]
          exact ⟨c, rfl, h, rfl,
            .wait (verdict_of_none (frontFrame_eq_none.mpr fun hfront => hall hfront.2))⟩
      · rw [if_neg hhead]
        exact ⟨c, rfl, h, rfl,
          .wait (verdict_of_none (frontFrame_eq_none.mpr fun hfront => hhead hfront.1))⟩

/-- A pass that receives serves what was buffered and what arrived. -/
theorem pass_serves {c : ConnectorClient σ} (h : c.Inv) {bs : List UInt8}
    (hreceives : c.Receives bs) :
    (c.pass (onReceive cfg handler) (.bytes bs)).Inv ∧
      (service cfg handler).Serves (stage c) (c.received ++ bs)
        (stage (c.pass (onReceive cfg handler) (.bytes bs)))
        (c.pass (onReceive cfg handler) (.bytes bs)).received := by
  obtain ⟨hinv, hreceived, hcount, hclosed, -, hderived⟩ := hreceives.spec h
  obtain ⟨c', hloop, hinv', -, hserves⟩ := onReceiveLoop_serves cfg handler
    ((c.replenish.transfer bs).recvqCount + 1) _ hinv
    (by rw [hcount, hreceived]; exact Nat.lt_succ_self _)
  rw [← hinv.count_eq] at hloop
  rcases Client.pass_cases (onReceive cfg handler) h (.bytes bs) with
    ⟨bs', heq, -, hpass⟩ | ⟨hnot, -⟩
  · cases heq
    rw [hpass, onReceive, hloop]
    have hstage : stage (c.replenish.transfer bs) = stage c := by
      rw [stage, stage, hclosed, hderived, hreceives.closed]
    rw [hstage, hreceived] at hserves
    exact ⟨hinv', hserves⟩
  · exact absurd hreceives (hnot bs rfl)

theorem pass_inv {c : ConnectorClient σ} (h : c.Inv) (a : Pass) :
    (c.pass (onReceive cfg handler) a).Inv := by
  rcases Client.pass_cases (onReceive cfg handler) h a with ⟨bs, rfl, hreceives, -⟩ | ⟨-, hrests⟩
  · exact (pass_serves cfg handler h hreceives).1
  · exact hrests.inv

theorem connected_inv {mempool : MemoryPool} (hpool : mempool.Inv [])
    (hchunk : mempool.chunksize % 2 ^ 32 ≠ 0) (state : σ) : (connected mempool state).Inv := by
  refine ⟨⟨hpool, List.Pairwise.nil, ?_⟩, ?_, Nat.zero_le _, rfl, Nat.pos_of_ne_zero hchunk⟩
  · exact fun v hv => absurd hv List.not_mem_nil
  · exact fun v hv => absurd hv List.not_mem_nil

/-! ### What is left in the queue -/

/-- The largest length that a message should have. -/
def maxLength : Nat := 1024 * 1024 * 5

/-- What `OnReceive` warns of. -/
def Malformed (b : List UInt8) : Prop :=
  Message.headSize ≤ b.length ∧
    (ofLE (b.take 4) < Message.headSize ∨ maxLength < ofLE (b.take 4))

/-- The connection is closed, or the bytes in the queue wait for the rest of a message. -/
def Settled (closed : Bool) (b : List UInt8) : Prop :=
  closed = true ∨ b.length < Message.headSize ∨
    Message.headSize ≤ ofLE (b.take 4) ∧ ofLE (b.take 4) ≤ maxLength ∧ b.length < ofLE (b.take 4)

/-- Complete messages none of which closes the connection are followed by a length out of
    the range, and not by as many bytes. -/
inductive Stalls : Peer σ → List UInt8 → Prop where
  | here {p b} (hfront : NodeMonitor.frontFrame b = none) (hbad : Malformed b) : Stalls p b
  | behind {p b n} (hfront : NodeMonitor.frontFrame b = some n)
      (hopen : (handleMessage cfg handler p (Message.ofFrame (b.take n))).2 = false)
      (hrest : Stalls (handleMessage cfg handler p (Message.ofFrame (b.take n))).1 (b.drop n)) :
      Stalls p b

theorem settled_of_no_frame {b : List UInt8} (hfront : NodeMonitor.frontFrame b = none) :
    Settled false b ↔ ¬ Malformed b := by
  rw [frontFrame_eq_none] at hfront
  simp only [Settled, Malformed, Bool.false_eq_true, false_or]
  omega

variable {cfg handler} in
/-- What is left is settled unless the loop has come to a malformed length. -/
theorem settled_iff {s s' : Stage (Peer σ) Message} {b b' : List UInt8}
    (h : (service cfg handler).Serves s b s' b') (hopen : s.closed = false) :
    Settled s'.closed b' ↔ ¬ Stalls cfg handler s.state b := by
  induction h with
  | @wait s b hv =>
    have hfront : NodeMonitor.frontFrame b = none := frontFrame_of_wait hv
    rw [hopen, settled_of_no_frame hfront, not_iff_not]
    constructor
    · exact .here hfront
    · rintro (⟨-, hbad⟩ | ⟨hsome, -, -⟩)
      · exact hbad
      · rw [hfront] at hsome
        cases hsome
  | bad hv => exact absurd hv (verdict_ne_bad _)
  | stop _ hstops => cases hstops
  | @frame s b n s' b' hv hgoes hrest ih =>
    have hfront : NodeMonitor.frontFrame b = some n := frontFrame_of_frame hv
    rcases hcloses : (handleMessage cfg handler s.state (Message.ofFrame (b.take n))).2 with _ | _
    · have hstill : ((service cfg handler).hand s (b.take n)).closed = false := by
        rw [Service.hand, hopen]
        exact hcloses
      rw [ih hstill, not_iff_not]
      constructor
      · exact .behind hfront hcloses
      · rintro (⟨hnone, -⟩ | ⟨hsome, -, hstalls⟩)
        · rw [hfront] at hnone
          cases hnone
        · cases hfront.symm.trans hsome
          exact hstalls
    · have hclosed : ((service cfg handler).hand s (b.take n)).closed = true := by
        rw [Service.hand, hopen]
        exact hcloses
      refine iff_of_true (Or.inl (hrest.closed_of_closed hclosed)) ?_
      rintro (⟨hnone, -⟩ | ⟨hsome, hstill, -⟩)
      · rw [hfront] at hnone
        cases hnone
      · cases hfront.symm.trans hsome
        rw [hcloses] at hstill
        cases hstill

/-- **`OnReceive` returns with the connection closed or the queue waiting for the rest of a
    message, exactly if no malformed length was behind the messages that it handled.**  A
    run is any sequence of reads. -/
theorem settled_along_iff {mempool : MemoryPool} (hpool : mempool.Inv [])
    (hchunk : mempool.chunksize % 2 ^ 32 ≠ 0) (state : σ) (as : List Pass) :
    Along (Client.pass (onReceive cfg handler))
        (fun c a => ∀ bs, a = .bytes bs → c.Receives bs →
          Settled (c.pass (onReceive cfg handler) a).closed
            (c.pass (onReceive cfg handler) a).received)
        (connected mempool state) as ↔
      Along (Client.pass (onReceive cfg handler))
        (fun c a => ∀ bs, a = .bytes bs → c.Receives bs →
          ¬ Stalls cfg handler c.derived.peer (c.received ++ bs))
        (connected mempool state) as := by
  refine along_congr (I := Client.Inv) ?_ (fun c a h _ => pass_inv cfg handler h a)
    (connected_inv hpool hchunk state) as
  intro c a h
  refine forall_congr' fun bs => forall_congr' fun heq => forall_congr' fun hreceives => ?_
  subst heq
  exact settled_iff (pass_serves cfg handler h hreceives).2 hreceives.closed

/-- A handler that takes note of the messages it is given. -/
def quiet : EventHandler (List Message) where
  onConnectorAuthSuccess s _ := ⟨s, false, false⟩
  onConnectorReceiveMessage s _ msg := ⟨s ++ [msg], false, false⟩
  use _ _ _ p := p
  keeps _ _ _ _ := ⟨rfl, id, fun _ _ => rfl⟩

/-- A message without receiver, session and payload, of the code 2. -/
def emptyMessage : List UInt8 := [16, 0, 0, 0, 2, 0, 0, 0, 0, 0, 0, 0, 0, 0, 0, 0]

/-- A message that arrives in two pieces. -/
theorem settled_along_pieces :
    Along (Client.pass (onReceive (NodeMonitor.clusterA []) quiet))
      (fun c a => ∀ bs, a = .bytes bs → c.Receives bs →
        Settled (c.pass (onReceive (NodeMonitor.clusterA []) quiet) a).closed
          (c.pass (onReceive (NodeMonitor.clusterA []) quiet) a).received)
      (connected (MemoryPool.emptyPool 3) [])
      [.bytes (emptyMessage.take 5), .bytes (emptyMessage.drop 5)] := by
  apply (settled_along_iff _ _ (MemoryPool.emptyPool_inv 3) (by decide) _ _).mpr
  have hnone : ∀ {p : Peer (List Message)} {b : List UInt8}, b.length < Message.headSize →
      ¬ Stalls (NodeMonitor.clusterA []) quiet p b := by
    rintro p b hshort (⟨-, hbad⟩ | ⟨hsome, -, -⟩)
    · exact absurd hbad.1 (Nat.not_le.mpr hshort)
    · exact absurd (frontFrame_eq_some.mp hsome).1 (Nat.not_le.mpr hshort)
  refine ⟨?_, ?_, trivial⟩
  · rintro bs heq -
    cases heq
    exact hnone (by decide)
  · rintro bs heq - (⟨hfront, -⟩ | ⟨hfront, -, hstalls⟩)
    · cases heq
      exact absurd hfront (by decide)
    · cases heq
      cases hfront.symm.trans (rfl : NodeMonitor.frontFrame emptyMessage = some 16)
      exact hnone (by decide) hstalls

/-- A length of zero, and a message behind it. -/
def zeroLength : List Pass := [.bytes (List.replicate 16 0), .bytes emptyMessage]

/-- The connection stays open and nothing is ever handled. -/
theorem zeroLength_unread :
    (run (Client.pass (onReceive (NodeMonitor.clusterA []) quiet))
        (connected (MemoryPool.emptyPool 3) []) zeroLength).closed = false ∧
      (run (Client.pass (onReceive (NodeMonitor.clusterA []) quiet))
        (connected (MemoryPool.emptyPool 3) []) zeroLength).derived.handed = [] ∧
      (run (Client.pass (onReceive (NodeMonitor.clusterA []) quiet))
        (connected (MemoryPool.emptyPool 3) []) zeroLength).recvqCount = 32 ∧
      ¬ Along (Client.pass (onReceive (NodeMonitor.clusterA []) quiet))
        (fun c a => ∀ bs, a = .bytes bs → c.Receives bs →
          Settled (c.pass (onReceive (NodeMonitor.clusterA []) quiet) a).closed
            (c.pass (onReceive (NodeMonitor.clusterA []) quiet) a).received)
        (connected (MemoryPool.emptyPool 3) []) zeroLength := by
  refine ⟨by decide, by decide, by decide, ?_⟩
  rintro ⟨hsettled, -⟩
  have hreceives : (connected (MemoryPool.emptyPool 3) ([] : List Message)).Receives
      (List.replicate 16 0) := ⟨by decide, by decide, by decide, by decide⟩
  rcases hsettled _ rfl hreceives with hclosed | hshort | ⟨hlow, -, -⟩
  · exact absurd hclosed (by decide)
  · exact absurd hshort (by decide)
  · exact absurd hlow (by decide)

end ConnectorClient

end Jengine.Cluster
