import Jengine.Cluster.ConnectorReceive
import Jengine.Gateway.PacketLoop

/-!
# Frames of a closed connection

`EventIO::Close` sets a flag and closes the descriptor; nothing more is read.  But the
loops of `UserClient::OnReceive` and `Connector::OnReceive` run over what has been read,
and neither looks at the flag.  A frame that closes the connection is therefore followed
by the other frames that came with it, unless the loop is left: a user client leaves it
after an exception and at a malformed packet, a connector does not.
-/

namespace Jengine.Cluster

open Jengine.Lib Jengine.Memory RefMemoryChunk Jengine.Net Jengine.Gateway

variable {σ : Type}

/-- No packet was given to the session of a closed client. -/
def UserInTime (c : UserClient (UserClient.Watched σ)) : Prop :=
  ∀ w, c.derived.session = some w → ∀ e ∈ w.calls, e.2 = false

/-- No message of a closed connector was handled. -/
def ConnectorInTime (c : ConnectorClient σ) : Prop := ∀ e ∈ c.derived.handed, e.2 = false

theorem not_userInTime {c : UserClient (UserClient.Watched σ)}
    (h : (c.derived.session.any fun w => w.calls.any (·.2)) = true) : ¬ UserInTime c := by
  intro hin
  rcases hs : c.derived.session with _ | w
  · rw [hs] at h
    cases h
  · rw [hs, Option.any_some] at h
    obtain ⟨e, he, hafter⟩ := List.any_eq_true.mp h
    cases hafter.symm.trans (hin w hs e he)

theorem not_connectorInTime {c : ConnectorClient σ} (h : c.derived.handed.any (·.2) = true) :
    ¬ ConnectorInTime c := by
  intro hin
  obtain ⟨e, he, hafter⟩ := List.any_eq_true.mp h
  cases hafter.symm.trans (hin e he)

/-- What the session is given with the bytes `bs` is not late. -/
def UserPunctual (S : UserClient.Session σ) (c : UserClient (UserClient.Watched σ)) (a : Pass) :
    Prop :=
  ∀ w bs, c.derived.session = some w → a = .bytes bs → c.Receives bs →
    ¬ S.service.Late w.session (c.received ++ bs)

/-- What the connector handles with the bytes `bs` is not late. -/
def ConnectorPunctual (cfg : Configure) (handler : EventHandler σ) (c : ConnectorClient σ)
    (a : Pass) : Prop :=
  ∀ bs, a = .bytes bs → c.Receives bs →
    ¬ (ConnectorClient.service cfg handler).Late c.derived.peer (c.received ++ bs)

theorem user_inTime_iff (S : UserClient.Session σ) {c : UserClient (UserClient.Watched σ)}
    (h : (c.Inv ∧ ∃ w, c.derived.session = some w) ∧ UserInTime c) (a : Pass) :
    UserInTime (c.pass (UserClient.onReceive S.handler) a) ↔ UserPunctual S c a := by
  obtain ⟨⟨hinv, w, hs⟩, hin⟩ := h
  rcases Client.pass_cases (UserClient.onReceive S.handler) hinv a with
    ⟨bs, rfl, hreceives, -⟩ | ⟨hnot, hrests⟩
  · obtain ⟨-, w', hs', hserves⟩ := UserClient.pass_serves S hinv hs hreceives
    have hiff := hserves.inTime_iff hreceives.closed (hin w hs)
    constructor
    · rintro hafter w2 bs2 hs2 heq -
      cases heq
      cases hs.symm.trans hs2
      exact hiff.mp (hafter w' hs')
    · intro hpunctual w2 hs2
      cases hs'.symm.trans hs2
      exact hiff.mpr (hpunctual w bs hs rfl hreceives)
  · refine iff_of_true ?_ ?_
    · rw [UserInTime, hrests.derived]
      exact hin
    · exact fun w bs _ heq hreceives => absurd hreceives (hnot bs heq)

theorem connector_inTime_iff (cfg : Configure) (handler : EventHandler σ) {c : ConnectorClient σ}
    (h : c.Inv ∧ ConnectorInTime c) (a : Pass) :
    ConnectorInTime (c.pass (ConnectorClient.onReceive cfg handler) a) ↔
      ConnectorPunctual cfg handler c a := by
  obtain ⟨hinv, hin⟩ := h
  rcases Client.pass_cases (ConnectorClient.onReceive cfg handler) hinv a with
    ⟨bs, rfl, hreceives, -⟩ | ⟨hnot, hrests⟩
  · have hiff := (ConnectorClient.pass_serves cfg handler hinv hreceives).2.inTime_iff
      hreceives.closed hin
    constructor
    · rintro hafter bs2 heq -
      cases heq
      exact hiff.mp hafter
    · exact fun hpunctual => hiff.mpr (hpunctual bs rfl hreceives)
  · refine iff_of_true ?_ ?_
    · rw [ConnectorInTime, hrests.derived]
      exact hin
    · exact fun bs heq hreceives => absurd hreceives (hnot bs heq)

/-- **No frame is handled after its connection was closed, exactly if in every read what
    closes the connection, and does not end the loop, is the last complete frame.** -/
theorem inTime_along_iff {mempool : MemoryPool} (hpool : mempool.Inv [])
    (hchunk : mempool.chunksize % 2 ^ 32 ≠ 0) :
    (∀ {σ : Type} (S : UserClient.Session σ) (s : σ) (as : List Pass),
      Along (Client.pass (UserClient.onReceive S.handler))
          (fun c a => UserInTime (c.pass (UserClient.onReceive S.handler) a))
          (UserClient.connected mempool ⟨s, []⟩) as ↔
        Along (Client.pass (UserClient.onReceive S.handler)) (UserPunctual S)
          (UserClient.connected mempool ⟨s, []⟩) as) ∧
    (∀ {σ : Type} (cfg : Configure) (handler : EventHandler σ) (s : σ) (as : List Pass),
      Along (Client.pass (ConnectorClient.onReceive cfg handler))
          (fun c a => ConnectorInTime (c.pass (ConnectorClient.onReceive cfg handler) a))
          (ConnectorClient.connected mempool s) as ↔
        Along (Client.pass (ConnectorClient.onReceive cfg handler)) (ConnectorPunctual cfg handler)
          (ConnectorClient.connected mempool s) as) := by
  constructor
  · intro σ S s as
    refine along_congr
      (I := fun c => (c.Inv ∧ ∃ w, c.derived.session = some w) ∧ UserInTime c)
      (fun c a h => user_inTime_iff S h a)
      (fun c a h hafter => ⟨UserClient.pass_keeps S h.1 a, hafter⟩) ?_ as
    refine ⟨⟨UserClient.connected_inv hpool hchunk _, _, rfl⟩, ?_⟩
    intro w hs e he
    cases hs
    exact absurd he List.not_mem_nil
  · intro σ cfg handler s as
    refine along_congr (I := fun c => c.Inv ∧ ConnectorInTime c)
      (fun c a h => connector_inTime_iff cfg handler h a)
      (fun c a h hafter => ⟨ConnectorClient.pass_inv cfg handler h.1 a, hafter⟩) ?_ as
    exact ⟨ConnectorClient.connected_inv hpool hchunk s, fun e he => absurd he List.not_mem_nil⟩

/-- A session that calls `Exit` at every packet. -/
def exits : UserClient.Session Unit where
  onUserClientReceivePacket _ _ := ⟨(), true, false⟩
  use _ _ _ p := p
  keeps _ _ _ _ := ⟨rfl, id, fun _ _ => rfl⟩

/-- A packet that comes alone may close its client. -/
theorem inTime_along_single :
    Along (Client.pass (UserClient.onReceive exits.handler))
      (fun c a => UserInTime (c.pass (UserClient.onReceive exits.handler) a))
      (UserClient.connected (MemoryPool.emptyPool 3) ⟨(), []⟩) [.bytes UserClient.emptyPacket] := by
  apply ((inTime_along_iff (MemoryPool.emptyPool_inv 3) (by decide)).1 exits () _).mpr
  refine ⟨?_, trivial⟩
  rintro w bs - heq - hlate
  cases heq
  have hwait : packetFraming.verdict (UserClient.emptyPacket.drop 10) = .wait := rfl
  have hframe : packetFraming.verdict UserClient.emptyPacket = .frame 10 := rfl
  rcases hlate with ⟨hv, -, -, hnext⟩ | ⟨hv, -, hrest⟩
  · cases hframe.symm.trans hv
    cases hwait.symm.trans hnext
  · cases hframe.symm.trans hv
    obtain ⟨n, hnext⟩ := hrest.frame
    cases hwait.symm.trans hnext

/-- An authentication without a cookie. -/
def badAuth : List UInt8 := [19, 0, 0, 0, 1, 0, 0, 0, 0, 0, 0, 0, 0, 0, 0, 0, 2, 0, 0]

/-- A message of the code 2 to the mailbox 7 of the node 1. -/
def toMailbox : List UInt8 := [16, 0, 0, 0, 2, 0, 0, 0, 0, 0, 7, 0, 0, 1, 0, 0]

/-- The second of two packets in one read is handed to a session that has closed its client
    at the first; a message behind a failed authentication goes to its mailbox. -/
theorem twoInOneRead_late :
    ¬ Along (Client.pass (UserClient.onReceive exits.handler))
        (fun c a => UserInTime (c.pass (UserClient.onReceive exits.handler) a))
        (UserClient.connected (MemoryPool.emptyPool 3) ⟨(), []⟩)
        [.bytes (UserClient.emptyPacket ++ UserClient.emptyPacket)] ∧
      ¬ Along (Client.pass (ConnectorClient.onReceive (NodeMonitor.clusterA []) ConnectorClient.quiet))
        (fun c a => ConnectorInTime
          (c.pass (ConnectorClient.onReceive (NodeMonitor.clusterA []) ConnectorClient.quiet) a))
        (ConnectorClient.connected (MemoryPool.emptyPool 3) []) [.bytes (badAuth ++ toMailbox)] ∧
      (run (Client.pass (ConnectorClient.onReceive (NodeMonitor.clusterA []) ConnectorClient.quiet))
        (ConnectorClient.connected (MemoryPool.emptyPool 3) [])
        [.bytes (badAuth ++ toMailbox)]).derived.peer.state = [Message.ofFrame toMailbox] := by
  refine ⟨?_, ?_, by decide +kernel⟩
  · rintro ⟨hin, -⟩
    exact not_userInTime (by decide +kernel) hin
  · rintro ⟨hin, -⟩
    exact not_connectorInTime (by decide +kernel) hin

end Jengine.Cluster
