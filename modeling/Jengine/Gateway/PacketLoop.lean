import Jengine.Gateway.UserClient
import Jengine.Lib.Serving
import Jengine.Net.Passes

/-!
# The packet loop with any session

A session may close its client while it handles a packet (`GateSession::Exit` does), and
it may throw, which closes the client and ends the loop of `UserClient::OnReceive`.  Here
the session is any such session; it is watched by a handler that writes down each packet
together with whether the client was closed by then.
-/

namespace Jengine.Gateway.UserClient

open Jengine.Lib Jengine.Memory RefMemoryChunk Jengine.Net

variable {σ : Type}

/-- What a session did with a packet. -/
structure Answer (σ : Type) where
  session : σ
  closes : Bool
  throws : Bool

/-- A user session.  What its answers depend on is in its state. -/
structure Session (σ : Type) where
  onUserClientReceivePacket : σ → Frame → Answer σ
  /-- What becomes of the pool while a packet is handled. -/
  use : σ → Frame → List RefMemoryChunk → MemoryPool → MemoryPool
  /-- The views of the packet and of the client are left alone. -/
  keeps : ∀ s frame held p, MemoryPool.Keeps held p (use s frame held p)

/-- A session, and the packets it was given, each with whether the client was closed by
    then. -/
structure Watched (σ : Type) where
  session : σ
  calls : List (Frame × Bool)

/-- The handler of a watched session. -/
def Session.handler (S : Session σ) : Handler (Watched σ) := fun w code sessionid pk c =>
  let frame : Frame := ⟨code, sessionid, bytesOf c.pool.mem pk.data⟩
  let r := S.onUserClientReceivePacket w.session frame
  ⟨⟨r.session, w.calls ++ [(frame, c.closed)]⟩,
    S.use w.session frame (pk.data ++ (c.recvq ++ c.recvp)) c.pool, r.closes, r.throws⟩

/-- How a client serves the packets it receives: an exception closes the client and ends the
    loop. -/
def Session.service (S : Session σ) : Service UInt8 Frame σ where
  framing := packetFraming
  note := toFrame
  serve s b :=
    let r := S.onUserClientReceivePacket s (toFrame b)
    ⟨r.session, r.closes || r.throws, r.throws⟩

def stage (c : UserClient (Watched σ)) (w : Watched σ) : Stage σ Frame :=
  ⟨w.session, c.closed, w.calls⟩

theorem Session.handler_keeps (S : Session σ) (w : Watched σ) (code sessionid : UInt16)
    (pk : Packet) (c : UserClient (Watched σ)) :
    MemoryPool.Keeps (pk.data ++ (c.recvq ++ c.recvp)) c.pool
      (S.handler w code sessionid pk c).pool :=
  S.keeps _ _ _ _

theorem verdict_wait_of_short {b : List UInt8} (h : ¬ headSize ≤ b.length) :
    packetFraming.verdict b = .wait := by
  simp only [packetFraming, packetVerdict, if_neg h]

theorem verdict_wait_of_incomplete {b : List UInt8} (h : headSize ≤ b.length)
    (hhead : identifierOf b = identifier.toNat ∧ headSize ≤ lengthOf b)
    (hmore : ¬ lengthOf b ≤ b.length) : packetFraming.verdict b = .wait := by
  simp only [packetFraming, packetVerdict, if_pos h, if_pos hhead, if_neg hmore]

variable (S : Session σ)

/-- One packet is popped and handed to the session. -/
theorem receivePacket_hand {c : UserClient (Watched σ)} (h : c.Inv) {w : Watched σ}
    (hs : c.derived.session = some w) {n : Nat} (hn : n ≤ c.received.length)
    (hlow : headSize ≤ n) (hhigh : n < 65536) :
    ∃ c' w', receivePacket S.handler n c =
        (c', !(S.service.serve w.session (c.received.take n)).stops) ∧
      c'.Inv ∧ c'.received = c.received.drop n ∧ c'.connect = c.connect ∧
      c'.derived.session = some w' ∧ stage c' w' = S.service.hand (stage c w) (c.received.take n) := by
  obtain ⟨pk, c2, c3, r, hr, hc3, heq, hinv, hrest, hbytes, hclosed, hconnect, -⟩ :=
    receivePacket_eq S.handler_keeps h hs hn hlow hhigh
  have hanswer : r.throws = (S.service.serve w.session (c.received.take n)).stops ∧
      (r.closes || r.throws) = (S.service.serve w.session (c.received.take n)).closes ∧
      r.session = ⟨(S.service.serve w.session (c.received.take n)).state,
        w.calls ++ [(toFrame (c.received.take n), c.closed)]⟩ := by
    rw [← hr, ← hclosed]
    simp only [Session.handler, Session.service, hbytes, toFrame, and_self]
  obtain ⟨hthrows, hcloses, hsession⟩ := hanswer
  rw [← hthrows]
  cases hthrew : r.throws with
  | true =>
      rw [hthrew, if_pos rfl] at heq
      refine ⟨c3.close, r.session, heq, ⟨hinv.sound, hinv.filled, hinv.recvp_le, hinv.count,
        hinv.chunk_pos⟩, hrest, ?_, ?_, ?_⟩
      · rw [hc3]
        exact hconnect
      · rw [hc3]
        rfl
      · rw [stage, hsession, Service.hand, stage]
        simp only [← hcloses, hthrew, Bool.or_true]
        rfl
  | false =>
      rw [hthrew, if_neg Bool.false_ne_true] at heq
      refine ⟨c3, r.session, heq, hinv, hrest, ?_, ?_, ?_⟩
      · rw [hc3]
        exact hconnect
      · rw [hc3]
        rfl
      · rw [hthrew, Bool.or_false] at hcloses
        rw [stage, hsession, Service.hand, stage, ← hcloses, hc3, handedOver, hclosed]
        rfl

/-- `OnReceive` serves what is in the queue. -/
theorem onReceiveLoop_serves : ∀ (fuel : Nat) (c : UserClient (Watched σ)) (w : Watched σ),
    c.Inv → c.derived.session = some w → c.received.length < fuel →
    ∃ c' w', onReceiveLoop S.handler fuel c.received.length c = c' ∧ c'.Inv ∧
      c'.connect = c.connect ∧ c'.derived.session = some w' ∧
      S.service.Serves (stage c w) c.received (stage c' w') c'.received := by
  intro fuel
  induction fuel with
  | zero => exact fun c w _ _ hfuel => absurd hfuel (Nat.not_lt_zero _)
  | succ fuel ih =>
      intro c w h hs hfuel
      by_cases hlen : headSize ≤ c.received.length
      · obtain ⟨pkthead, hcopy, hid, hlength⟩ := copyHead_spec h hlen
        have h1 : ({ c with derived := { c.derived with pkthead := pkthead } } :
            UserClient (Watched σ)).Inv :=
          ⟨h.sound, h.filled, h.recvp_le, h.count, h.chunk_pos⟩
        simp only [onReceiveLoop, if_pos hlen, hcopy, hid, hlength]
        by_cases hhead : identifierOf c.received = identifier.toNat ∧ headSize ≤ lengthOf c.received
        · rw [if_pos hhead]
          by_cases hall : lengthOf c.received ≤ c.received.length
          · -- a complete packet
            rw [if_pos hall]
            have hverdict : packetFraming.verdict c.received = .frame (lengthOf c.received) :=
              packetVerdict_frame.mpr ⟨hlen, hhead.1, hhead.2, hall, rfl⟩
            obtain ⟨c2, w2, hrecv, hinv2, hrest2, hconnect2, hs2, hstage⟩ :=
              receivePacket_hand S h1 (w := w) hs hall hhead.2 (lengthOf_lt _)
            change receivePacket S.handler (lengthOf c.received) _ =
              (c2, !(S.service.serve w.session (c.received.take (lengthOf c.received))).stops) at hrecv
            change c2.received = c.received.drop (lengthOf c.received) at hrest2
            change stage c2 w2 =
              S.service.hand (stage c w) (c.received.take (lengthOf c.received)) at hstage
            rw [hrecv]
            cases hstops : (S.service.serve w.session
                (c.received.take (lengthOf c.received))).stops with
            | true =>
              refine ⟨c2, w2, rfl, hinv2, hconnect2, hs2, ?_⟩
              rw [hstage, hrest2]
              exact .stop hverdict hstops
            | false =>
              have hlen2 : c2.received.length = c.received.length - lengthOf c.received := by
                rw [hrest2, List.length_drop]
              have hpos : 0 < headSize := by decide
              obtain ⟨c3, w3, hloop, hinv3, hconnect3, hs3, hserves⟩ :=
                ih c2 w2 hinv2 hs2 (by omega)
              rw [hlen2] at hloop
              refine ⟨c3, w3, hloop, hinv3, hconnect3.trans hconnect2, hs3, ?_⟩
              rw [hstage, hrest2] at hserves
              exact .frame hverdict hstops hserves
          · rw [if_neg hall]
            exact ⟨_, w, rfl, h1, rfl, hs, .wait (verdict_wait_of_incomplete hlen hhead hall)⟩
        · rw [if_neg hhead]
          exact ⟨_, w, rfl, ⟨h1.sound, h1.filled, h1.recvp_le, h1.count, h1.chunk_pos⟩, rfl, hs,
            .bad (packetVerdict_bad.mpr ⟨hlen, hhead⟩)⟩
      · simp only [onReceiveLoop, if_neg hlen]
        exact ⟨c, w, rfl, h, rfl, hs, .wait (verdict_wait_of_short hlen)⟩

/-- A pass that receives serves what was buffered and what arrived. -/
theorem pass_serves {c : UserClient (Watched σ)} (h : c.Inv) {w : Watched σ}
    (hs : c.derived.session = some w) {bs : List UInt8} (hreceives : c.Receives bs) :
    (c.pass (onReceive S.handler) (.bytes bs)).Inv ∧
      ∃ w', (c.pass (onReceive S.handler) (.bytes bs)).derived.session = some w' ∧
        S.service.Serves (stage c w) (c.received ++ bs)
          (stage (c.pass (onReceive S.handler) (.bytes bs)) w')
          (c.pass (onReceive S.handler) (.bytes bs)).received := by
  obtain ⟨hinv, hreceived, hcount, hclosed, -, hderived⟩ := hreceives.spec h
  obtain ⟨c', w', hloop, hinv', -, hs', hserves⟩ := onReceiveLoop_serves S
    ((c.replenish.transfer bs).recvqCount + 1) _ w hinv (by rw [hderived]; exact hs)
    (by rw [hcount, hreceived]; exact Nat.lt_succ_self _)
  rw [← hinv.count_eq] at hloop
  rcases Client.pass_cases (onReceive S.handler) h (.bytes bs) with
    ⟨bs', heq, -, hpass⟩ | ⟨hnot, -⟩
  · cases heq
    rw [hpass, onReceive, hloop]
    have hstage : stage (c.replenish.transfer bs) w = stage c w := by
      rw [stage, stage, hclosed, hreceives.closed]
    rw [hstage, hreceived] at hserves
    exact ⟨hinv', w', hs', hserves⟩
  · exact absurd hreceives (hnot bs rfl)

/-- What every pass leaves: a well-formed client that has its session. -/
theorem pass_keeps {c : UserClient (Watched σ)} (h : c.Inv ∧ ∃ w, c.derived.session = some w)
    (a : Pass) : (c.pass (onReceive S.handler) a).Inv ∧
      ∃ w, (c.pass (onReceive S.handler) a).derived.session = some w := by
  obtain ⟨hinv, w, hs⟩ := h
  rcases Client.pass_cases (onReceive S.handler) hinv a with
    ⟨bs, rfl, hreceives, -⟩ | ⟨-, hrests⟩
  · obtain ⟨hinv', w', hs', -⟩ := pass_serves S hinv hs hreceives
    exact ⟨hinv', w', hs'⟩
  · exact ⟨hrests.inv, w, by rw [hrests.derived]; exact hs⟩

theorem connected_inv {mempool : MemoryPool} (hpool : mempool.Inv [])
    (hchunk : mempool.chunksize % 2 ^ 32 ≠ 0) (s : σ) : (connected mempool s).Inv := by
  refine ⟨⟨hpool, List.Pairwise.nil, ?_⟩, ?_, Nat.zero_le _, rfl, Nat.pos_of_ne_zero hchunk⟩
  · exact fun v hv => absurd hv List.not_mem_nil
  · exact fun v hv => absurd hv List.not_mem_nil

end Jengine.Gateway.UserClient
