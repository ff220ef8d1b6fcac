import Jengine.Cluster.ConnectorReceive
import Jengine.Cluster.SharedHead
import Jengine.Cluster.World
import Jengine.Lib.Channel

/-!
# A connection between two nodes

The two ends of a connection and the bytes between them.  One connector pushes the chunks of
messages on its send queue (`NodeMonitor::SendMessage`), its socket accepts them in pieces of
any size; the other connector reads in pieces of any size and cuts messages off its receive
queue (`Connector::OnReceive`).  `refines` says that this is a queue of messages, whatever
the sockets do: every step of the bytes is some steps of the queue.  `Cluster/World.lean`
joins two monitors by such a queue.
-/

namespace Jengine.Cluster

open Jengine.Lib Jengine.Memory RefMemoryChunk Jengine.Net

/-- The length of the message fits into the head. -/
def Message.Sized (msg : Message) : Prop := Message.headSize + msg.payload.length < 2 ^ 32

instance (msg : Message) : Decidable msg.Sized := by unfold Message.Sized; infer_instance

/-- Messages behind each other on a wire. -/
def messageCoding : Coding UInt8 Message where
  framing := ConnectorClient.messageFraming
  encode := Message.toFrame
  Fits := Message.Sized
  framed := fun h => ConnectorClient.verdict_of_some (frontFrame_toFrame h)

structure Link (σ : Type) where
  sender : ClientIO
  /-- What was given to `PushSend` while the connector was connected. -/
  sent : List Message
  /-- What the socket of the sender has accepted and that of the receiver has not returned. -/
  wire : List UInt8
  lost : Bool
  receiver : ConnectorClient σ

namespace Link

variable {σ : Type}

/-- Two connectors that are being connected. -/
def start (m : Bytes) (mempool : MemoryPool) (state : σ) : Link σ :=
  ⟨ ClientIO.fresh m, [], [], false, ConnectorClient.connected mempool state⟩

inductive Action where
  | send (msg : Message) (data : List RefMemoryChunk) (answers : List Answer)
  /-- Something else happens to the sending connector. -/
  | io (a : ClientIO.Action)
  /-- Other code writes to the chunks. -/
  | write (m : Bytes)
  /-- The receiving connector is readable. -/
  | readable (answers : List Client.Ready)
  /-- The receiving connector is closed. -/
  | close
  /-- The connection is lost, with all but the first bytes on their way. -/
  | lose (rest : Nat)

/-- The sending connector changes; what its socket accepts is on its way. -/
def carry (l : Link σ) (sender : ClientIO) : Link σ :=
  { l with
    sender := sender
    wire :=
      if l.lost then l.wire else l.wire ++ sender.accepted.drop l.sender.accepted.length }

section

variable (cfg : Configure) (handler : EventHandler σ)

def step (l : Link σ) : Action → Link σ
  | .send msg data answers =>
      { l.carry (l.sender.step (.push data answers)) with
        sent :=
          if l.sender.aborted = false ∧ l.sender.connect = true then l.sent ++ [msg] else l.sent }
  | .io a => if Outbox.external a = true then l.carry (l.sender.step a) else l
  | .write m => l.carry (l.sender.step (.write m))
  | .readable answers =>
      let r := Client.onEventIOReadable (ConnectorClient.onReceive cfg handler) answers l.receiver
        l.wire
      { l with receiver := r.1, wire := r.2 }
  | .close => { l with receiver := l.receiver.close }
  | .lose rest => { l with wire := l.wire.take rest, lost := true }

end

/-- What is sent are the bytes of a message that can have a head, and nobody writes to the
    chunks that are queued. -/
def Proper (l : Link σ) : Action → Prop
  | .send msg data _ => bytesOf l.sender.mem data = msg.toFrame ∧ msg.Sized
  | .write m => l.sender.Untouched (.write m)
  | _ => True

instance (l : Link σ) (a : Action) : Decidable (l.Proper a) := by
  cases a <;> unfold Proper <;> try infer_instance
  unfold ClientIO.Untouched
  infer_instance

/-- What can still arrive, behind what has arrived. -/
def pending (l : Link σ) : List UInt8 :=
  l.wire ++ if l.lost then [] else bytesOf l.sender.mem l.sender.sendq

/-! ### What the sockets accept -/

theorem accepted_invokeSend (answers : List Answer) (s : ClientIO) :
    s.accepted <+: (s.invokeSend answers).accepted := by
  have hmodify : ∀ s : ClientIO, (s.modifyIOEvent ⟨true, true⟩).accepted = s.accepted := by
    intro s
    unfold ClientIO.modifyIOEvent
    split <;> rfl
  have hclose : ∀ s : ClientIO, s.close.accepted = s.accepted := by
    intro s
    unfold ClientIO.close
    split <;> rfl
  have hloop : ∀ (answers : List Answer) (s : ClientIO) (sendevt : Bool),
      s.accepted <+: ( ClientIO.invokeSendLoop answers s sendevt).1.accepted := by
    intro answers
    induction answers with
    | nil =>
        intro s sendevt
        unfold ClientIO.invokeSendLoop
        split
        · exact List.prefix_rfl
        · split
          · exact (hclose s).symm ▸ List.prefix_rfl
          · exact (hmodify s).symm ▸ List.prefix_rfl
    | cons answer answers ih =>
        intro s sendevt
        unfold ClientIO.invokeSendLoop
        split
        · exact List.prefix_rfl
        · split
          · exact (hclose s).symm ▸ List.prefix_rfl
          · cases answer with
            | again => exact (hmodify s).symm ▸ List.prefix_rfl
            | error => exact (hclose s).symm ▸ List.prefix_rfl
            | accept n =>
                dsimp only
                split
                · exact List.prefix_rfl
                · refine List.IsPrefix.trans ?_ (ih _ true)
                  exact List.prefix_append _ _
  unfold ClientIO.invokeSend
  dsimp only
  split
  · exact hloop answers s false
  · exact hloop answers s false

/-- The socket does not give back what it has accepted. -/
theorem accepted_step (s : ClientIO) (a : ClientIO.Action) :
    s.accepted <+: (s.step a).accepted := by
  have hclose : s.accepted <+: s.close.accepted := by
    unfold ClientIO.close
    split <;> exact List.prefix_rfl
  have hadd : ∀ evt, s.accepted <+: (s.addToDispatcher evt).accepted := by
    intro evt
    unfold ClientIO.addToDispatcher
    split <;> exact List.prefix_rfl
  have hmodify : ∀ evt, (s.modifyIOEvent evt).accepted = s.accepted := by
    intro evt
    unfold ClientIO.modifyIOEvent
    split <;> rfl
  have hrest : ∀ answers, s.accepted <+: (s.writeableRest answers).accepted := by
    intro answers
    unfold ClientIO.writeableRest
    split
    · dsimp only
      split
      · exact (hmodify _).symm ▸ List.prefix_rfl
      · have hsend := accepted_invokeSend answers (s.modifyIOEvent ⟨true, false⟩)
        rw [hmodify] at hsend
        exact hsend
    · exact List.prefix_rfl
  have hread : ∀ r, s.accepted <+: (s.readOnce r).accepted := by
    intro r
    unfold ClientIO.readOnce
    split
    · cases r with
      | bytes | again => exact List.prefix_rfl
      | eof | error => exact hclose
    · exact List.prefix_rfl
  unfold ClientIO.step
  split
  · exact List.prefix_rfl
  cases a with
  | accept =>
      dsimp only
      split
      · exact hadd _
      · exact hadd _
  | dial rc =>
      dsimp only
      split
      · exact hadd _
      · cases rc <;> exact hadd _
  | push vs answers =>
      simp only [ ClientIO.pushSend]
      split
      · exact accepted_invokeSend answers { s with
          sendq := s.sendq ++ vs, pushed := s.pushed ++ bytesOf s.mem vs }
      · exact List.prefix_rfl
  | close => exact hclose
  | write m => exact List.prefix_rfl
  | writeable failed answers =>
      dsimp only
      split
      · unfold ClientIO.onEventIOWriteable
        split
        · split <;> exact List.prefix_rfl
        · exact hrest answers
      · exact List.prefix_rfl
  | readable r =>
      dsimp only
      split
      · exact hread r
      · exact List.prefix_rfl
  | returned r answers =>
      dsimp only
      split
      · exact List.prefix_rfl
      · exact List.prefix_rfl
      · exact hrest answers
      · exact hclose
      · exact hread r
  | finalize =>
      dsimp only
      split <;> exact List.prefix_rfl

/-- A change of the sending connector leaves what is pending, behind what it pushed. -/
theorem pending_carry {l : Link σ} {s : ClientIO} {new : List UInt8} (hold : l.sender.Conserved)
    (hnew : s.Conserved) (hgrows : l.sender.accepted <+: s.accepted)
    (hpushed : s.pushed = l.sender.pushed ++ new) :
    (l.carry s).pending = l.pending ++ if l.lost then [] else new := by
  cases hlost : l.lost with
  | true => simp only [pending, carry, hlost, if_true, List.append_nil]
  | false =>
    obtain ⟨more, hmore⟩ := hgrows
    have hbytes := hnew.bytes
    rw [hpushed, ← hold.bytes, ← hmore, List.append_assoc, List.append_assoc] at hbytes
    have hrest := List.append_cancel_left hbytes
    simp only [pending, carry, hlost, Bool.false_eq_true, if_false]
    rw [← hmore, List.drop_left' rfl, List.append_assoc, hrest, List.append_assoc]

/-! ### The queue behind the bytes -/

section

variable {cfg : Configure} {handler : EventHandler σ}

variable (cfg handler) in
/-- The queue of messages that a connection is. -/
abbrev queueStep : Channel (Peer σ) Message Message → Channel.Act Message →
    Channel (Peer σ) Message Message :=
  Channel.step (ConnectorClient.service cfg handler) Message.toFrame

/-- A connection does what a queue of messages does: the messages of the queue are there in
    their bytes, with a part of one more if the connection has been lost. -/
structure Carries (l : Link σ) (c : Channel (Peer σ) Message Message) : Prop where
  inv : l.receiver.Inv
  conserved : l.sender.Conserved
  sent : c.sent = l.sent
  lost : c.lost = l.lost
  stage : c.stage = ConnectorClient.stage l.receiver
  sized : ∀ msg ∈ c.queue, msg.Sized
  waits : ConnectorClient.messageFraming.verdict l.receiver.received = .wait
  bytes : ∃ tail, ConnectorClient.messageFraming.verdict tail = .wait ∧
    l.receiver.received ++ l.pending = c.queue.flatMap Message.toFrame ++ tail ∧
    (l.lost = false → tail = [])

/-- A pass of the receiving connector hands over some messages, and may close it. -/
theorem pass_delivers {r : ConnectorClient σ} (h : r.Inv) {w tail : List UInt8} (a : Pass)
    (hreceives : ∀ bs, a = .bytes bs → r.Receives bs)
    (c : Channel (Peer σ) Message Message) (hstage : c.stage = ConnectorClient.stage r)
    (hsized : ∀ msg ∈ c.queue, msg.Sized)
    (hwaits : ConnectorClient.messageFraming.verdict r.received = .wait)
    (htail : ConnectorClient.messageFraming.verdict tail = .wait)
    (hbytes : r.received ++ (a.given ++ w) = c.queue.flatMap Message.toFrame ++ tail) :
    let r' := r.pass (ConnectorClient.onReceive cfg handler) a
    ∃ acts queue, run (queueStep cfg handler) c acts =
        ⟨c.sent, queue, c.lost, ConnectorClient.stage r'⟩ ∧
      (∀ msg ∈ queue, msg.Sized) ∧ r'.Inv ∧
      ConnectorClient.messageFraming.verdict r'.received = .wait ∧
      r'.received ++ w = queue.flatMap Message.toFrame ++ tail := by
  intro r'
  rcases Client.pass_cases (ConnectorClient.onReceive cfg handler) h a with
    ⟨bs, rfl, hgot, -⟩ | ⟨hnot, hrests⟩
  · obtain ⟨hinv, hserves⟩ := ConnectorClient.pass_serves cfg handler h hgot
    rw [← List.append_assoc] at hbytes
    obtain ⟨k, hrun, hrest⟩ := hserves.delivers (C := messageCoding) rfl hsized htail hbytes
      c.sent c.lost
    refine ⟨List.replicate k .deliver, c.queue.drop k, ?_,
      fun msg hmsg => hsized msg (List.mem_of_mem_drop hmsg), hinv, ?_, hrest⟩
    · rw [← hrun, ← hstage]
      rfl
    · exact hserves.verdict_eq_wait ConnectorClient.verdict_ne_bad fun _ _ => rfl
  · have hgiven : a.given = [] := by
      cases a with
      | bytes bs => exact absurd (hreceives bs rfl) (hnot bs rfl)
      | _ => rfl
    rw [hgiven, List.nil_append, ← hrests.received] at hbytes
    rw [← hrests.received] at hwaits
    have hrest : ∃ acts, run (queueStep cfg handler) c acts =
        ⟨c.sent, c.queue, c.lost, ConnectorClient.stage r'⟩ := by
      have hsame : ConnectorClient.stage r' = { c.stage with closed := r'.closed } := by
        rw [hstage, ConnectorClient.stage, hrests.derived]
        rfl
      rw [hsame]
      cases hclosed : r'.closed with
      | true => exact ⟨[.close], rfl⟩
      | false =>
        have hopen : c.stage.closed = false := by
          rw [hstage]
          exact Bool.eq_false_of_not_eq_true fun hold =>
            Bool.false_ne_true (hclosed.symm.trans (hrests.closed hold))
        exact ⟨[], by rw [← hopen]; rfl⟩
    obtain ⟨acts, hrun⟩ := hrest
    exact ⟨acts, c.queue, hrun, hsized, hrests.inv, hwaits, hbytes⟩

/-- So do the passes of a readable event. -/
theorem passes_deliver {w tail : List UInt8}
    (htail : ConnectorClient.messageFraming.verdict tail = .wait) (as : List Pass) :
    ∀ (r : ConnectorClient σ), r.Inv →
    Along (Client.pass (ConnectorClient.onReceive cfg handler))
      (fun c a => ∀ bs, a = .bytes bs → c.Receives bs) r as →
    ∀ (c : Channel (Peer σ) Message Message), c.stage = ConnectorClient.stage r →
    (∀ msg ∈ c.queue, msg.Sized) →
    ConnectorClient.messageFraming.verdict r.received = .wait →
    r.received ++ (as.flatMap Pass.given ++ w) = c.queue.flatMap Message.toFrame ++ tail →
    let r' := run (Client.pass (ConnectorClient.onReceive cfg handler)) r as
    ∃ acts queue, run (queueStep cfg handler) c acts =
        ⟨c.sent, queue, c.lost, ConnectorClient.stage r'⟩ ∧
      (∀ msg ∈ queue, msg.Sized) ∧ r'.Inv ∧
      ConnectorClient.messageFraming.verdict r'.received = .wait ∧
      r'.received ++ w = queue.flatMap Message.toFrame ++ tail := by
  induction as with
  | nil =>
    intro r hinv _ c hstage hsized hwaits hbytes
    refine ⟨[], c.queue, ?_, hsized, hinv, hwaits, hbytes⟩
    rw [run_nil, run_nil, ← hstage]
  | cons a as ih =>
    intro r hinv halong c hstage hsized hwaits hbytes
    rw [List.flatMap_cons, List.append_assoc] at hbytes
    obtain ⟨acts, queue, hrun, hsized', hinv', hwaits', hbytes'⟩ := pass_delivers hinv a halong.1 c
      hstage hsized hwaits htail hbytes
    obtain ⟨acts', queue', hrun', hrest⟩ := ih _ hinv' halong.2
      ⟨c.sent, queue, c.lost, _⟩ rfl hsized' hwaits' hbytes'
    exact ⟨acts ++ acts', queue', by rw [run_append, hrun]; exact hrun', hrest⟩

/-- **A step of the connection is some steps of the queue.** -/
theorem Carries.step {l : Link σ} {c : Channel (Peer σ) Message Message} (h : Carries l c)
    {a : Action} (ha : l.Proper a) :
    ∃ acts, Carries (l.step cfg handler a) (run (queueStep cfg handler) c acts) := by
  obtain ⟨tail, htail, hbytes, hwhole⟩ := h.bytes
  cases a with
  | send msg data answers =>
    obtain ⟨hdata, hsized⟩ := ha
    obtain ⟨-, hpushed⟩ := Outbox.step_push l.sender data answers
    have hconserved : (l.sender.step (.push data answers)).Conserved := h.conserved.step trivial
    have hgrows := accepted_step l.sender (.push data answers)
    by_cases hopen : l.sender.aborted = false ∧ l.sender.connect = true
    · rw [if_pos hopen, hdata] at hpushed
      have hpending := pending_carry h.conserved hconserved hgrows hpushed
      have hsent : (l.step cfg handler (.send msg data answers)).sent = l.sent ++ [msg] :=
        if_pos hopen
      have hsend : run (queueStep cfg handler) c [.send msg] =
          ⟨c.sent ++ [msg], if c.lost then c.queue else c.queue ++ [msg], c.lost, c.stage⟩ := rfl
      have hreceiver : (l.step cfg handler (.send msg data answers)).receiver = l.receiver := rfl
      refine ⟨[.send msg], ?_⟩
      rw [hsend]
      cases hlost : l.lost with
      | true =>
        rw [if_pos (h.lost.trans hlost)]
        rw [hlost, if_pos rfl, List.append_nil] at hpending
        refine ⟨h.inv, hconserved, by rw [hsent, h.sent], h.lost, h.stage, h.sized, h.waits, tail,
          htail, ?_, hwhole⟩
        rw [hreceiver, ← hbytes, ← hpending]
        rfl
      | false =>
        rw [if_neg (by rw [h.lost, hlost]; exact Bool.false_ne_true)]
        rw [hlost, if_neg Bool.false_ne_true] at hpending
        refine ⟨h.inv, hconserved, by rw [hsent, h.sent], h.lost, h.stage, ?_, h.waits, tail,
          htail, ?_, hwhole⟩
        · intro m hm
          rcases List.mem_append.mp hm with hm | hm
          · exact h.sized m hm
          · rw [List.mem_singleton.mp hm]
            exact hsized
        · rw [hwhole hlost, List.append_nil] at hbytes ⊢
          rw [List.flatMap_append, List.flatMap_singleton, ← hbytes, hreceiver, List.append_assoc,
            ← hpending]
          rfl
    · rw [if_neg hopen] at hpushed
      have hpending := pending_carry h.conserved hconserved hgrows
        (hpushed.trans (List.append_nil _).symm)
      rw [ite_self, List.append_nil] at hpending
      refine ⟨[], ⟨h.inv, hconserved, ?_, h.lost, h.stage, h.sized, h.waits, tail, htail, ?_,
        hwhole⟩⟩
      · show c.sent = if _ then _ else _
        rw [if_neg hopen, h.sent]
      · show _ ++ (l.carry _).pending = _
        rw [hpending]
        exact hbytes
  | io a =>
    refine ⟨[], ?_⟩
    show Carries (if Outbox.external a = true then _ else l) c
    split
    next hext =>
      obtain ⟨-, hpushed⟩ := Outbox.step_external l.sender hext
      have huntouched : l.sender.Untouched a := by
        cases a with
        | write m => cases hext
        | _ => trivial
      have hconserved := h.conserved.step huntouched
      have hpending := pending_carry h.conserved hconserved (accepted_step l.sender a)
        (hpushed.trans (List.append_nil _).symm)
      rw [ite_self, List.append_nil] at hpending
      exact ⟨h.inv, hconserved, h.sent, h.lost, h.stage, h.sized, h.waits, tail, htail,
        by rw [hpending]; exact hbytes, hwhole⟩
    next => exact h
  | write m =>
    refine ⟨[], ?_⟩
    have huntouched : l.sender.Untouched (.write m) := ha
    have hconserved := h.conserved.step huntouched
    have hpushed : (l.sender.step (.write m)).pushed = l.sender.pushed ++ [] := by
      rw [List.append_nil, ClientIO.step]
      split <;> rfl
    have hgrows := accepted_step l.sender (.write m)
    have hpending := pending_carry h.conserved hconserved hgrows hpushed
    rw [ite_self, List.append_nil] at hpending
    exact ⟨h.inv, hconserved, h.sent, h.lost, h.stage, h.sized, h.waits, tail, htail,
      by rw [Link.step, hpending]; exact hbytes, hwhole⟩
  | readable answers =>
    obtain ⟨as, hrun, hgiven, halong⟩ := Client.onEventIOReadable_passes
      (ConnectorClient.onReceive cfg handler) answers l.receiver l.wire
    rw [pending, hgiven, List.append_assoc] at hbytes
    obtain ⟨acts, queue, hacts, hsized, hinv, hwaits, hrest⟩ := passes_deliver htail as l.receiver
      h.inv halong c h.stage h.sized h.waits hbytes
    rw [← hrun] at hacts hinv hwaits hrest
    refine ⟨acts, ?_⟩
    rw [hacts]
    exact ⟨hinv, h.conserved, h.sent, h.lost, rfl, hsized, hwaits, tail, htail, hrest, hwhole⟩
  | close =>
    refine ⟨[.close], ⟨?_, h.conserved, h.sent, h.lost, ?_, h.sized, h.waits, tail, htail, hbytes,
      hwhole⟩⟩
    · exact (Client.Rests.refl h.inv).close.inv
    · show { c.stage with closed := true } = _
      rw [h.stage]
      rfl
  | lose rest =>
    have hpart : l.receiver.received ++ l.wire.take rest <+:
        c.queue.flatMap Message.toFrame ++ tail := by
      rw [← hbytes, pending]
      apply (List.prefix_append_right_inj _).mpr
      exact (List.take_prefix _ _).trans (List.prefix_append _ _)
    obtain ⟨k, tail', htail', hcut⟩ :=
      messageCoding.exists_take_of_isPrefix h.sized htail hpart
    refine ⟨[.lose k], ⟨h.inv, h.conserved, h.sent, rfl, h.stage,
      fun m hm => h.sized m (List.mem_of_mem_take hm), h.waits, tail', htail', ?_,
      fun hlost => absurd hlost.symm Bool.false_ne_true⟩⟩
    show _ ++ (l.wire.take rest ++ []) = _
    rw [List.append_nil]
    exact hcut

theorem carries_start {mempool : MemoryPool} (hpool : mempool.Inv [])
    (hchunk : mempool.chunksize % 2 ^ 32 ≠ 0) (m : Bytes) (state : σ) :
    Carries (start m mempool state) (Channel.start ⟨none, state⟩) where
  inv := ConnectorClient.connected_inv hpool hchunk state
  conserved := ⟨rfl, fun _ he => absurd he List.not_mem_nil⟩
  sent := rfl
  lost := rfl
  stage := rfl
  sized := fun _ hm => absurd hm List.not_mem_nil
  waits := rfl
  bytes := ⟨[], rfl, rfl, fun _ => rfl⟩

variable (cfg handler) in
theorem run_carries {mempool : MemoryPool} (hpool : mempool.Inv [])
    (hchunk : mempool.chunksize % 2 ^ 32 ≠ 0) (m : Bytes) (state : σ) (as : List Action)
    (has : Along (step cfg handler) Proper (start m mempool state) as) :
    ∃ acts, Carries (run (step cfg handler) (start m mempool state) as)
      (run (queueStep cfg handler) (Channel.start ⟨none, state⟩) acts) := by
  refine run_invariant (I := fun l => ∃ acts, Carries l
    (run (queueStep cfg handler) (Channel.start ⟨none, state⟩) acts)) ?_
    ⟨[], carries_start hpool hchunk m state⟩ has
  rintro l a ⟨acts, h⟩ ha
  obtain ⟨acts', h'⟩ := h.step ha
  exact ⟨acts ++ acts', by rw [run_append]; exact h'⟩

/-- **A connection is a queue of messages.**  For every run of the two ends there is a run of
    the queue in which the same messages are sent and the receiving connector comes to be in
    the same state: who it is authenticated as, what its handler was given, and whether it is
    closed.  Until the connection is lost the bytes under way are those of the queue. -/
theorem refines (cfg : Configure) (handler : EventHandler σ) {mempool : MemoryPool}
    (hpool : mempool.Inv []) (hchunk : mempool.chunksize % 2 ^ 32 ≠ 0) (m : Bytes) (state : σ)
    (as : List Action) (has : Along (step cfg handler) Proper (start m mempool state) as) :
    ∃ acts,
      let l := run (step cfg handler) (start m mempool state) as
      let c := run (queueStep cfg handler) (Channel.start ⟨none, state⟩) acts
      c.sent = l.sent ∧ c.lost = l.lost ∧ c.stage = ConnectorClient.stage l.receiver ∧
        ∃ part, l.receiver.received ++ l.pending = c.queue.flatMap Message.toFrame ++ part ∧
          NodeMonitor.frontFrame part = none ∧ (l.lost = false → part = []) := by
  obtain ⟨acts, h⟩ := run_carries cfg handler hpool hchunk m state as has
  obtain ⟨part, hwait, hbytes, hwhole⟩ := h.bytes
  exact ⟨acts, h.sent, h.lost, h.stage, part, hbytes, ConnectorClient.frontFrame_of_wait hwait,
    hwhole⟩

/-- **The messages arrive in the order in which they were sent, each once.**  What has been
    handed over is always the first of what was sent; it is all of it, and nothing is left in
    the receive queue, if the connection has not been lost and no bytes are on their way. -/
theorem handed_eq_sent (cfg : Configure) (handler : EventHandler σ) {mempool : MemoryPool}
    (hpool : mempool.Inv []) (hchunk : mempool.chunksize % 2 ^ 32 ≠ 0) (m : Bytes) (state : σ)
    (as : List Action) (has : Along (step cfg handler) Proper (start m mempool state) as) :
    let l := run (step cfg handler) (start m mempool state) as
    l.receiver.derived.handed.map Prod.fst <+: l.sent.map Message.wire ∧
      (l.lost = false → l.wire = [] → l.sender.sendq = [] →
        l.receiver.derived.handed.map Prod.fst = l.sent.map Message.wire ∧
          l.receiver.received = []) := by
  intro l
  obtain ⟨acts, h⟩ := run_carries cfg handler hpool hchunk m state as has
  have hstart : Channel.Fifo (ConnectorClient.service cfg handler) Message.toFrame
      (Channel.start (⟨none, state⟩ : Peer σ)) := Channel.fifo_start _
  have hfifo := run_keeps (fun _ a hc => hc.step a) hstart acts
  have hseen : Channel.seen (ConnectorClient.service cfg handler) Message.toFrame =
      Message.wire := funext Message.ofFrame_toFrame
  obtain ⟨horder, hall⟩ := hfifo
  rw [hseen, h.sent, h.stage] at horder hall
  refine ⟨(List.prefix_append _ _).trans horder, fun hlost hwire hsendq => ?_⟩
  obtain ⟨tail, -, hbytes, hwhole⟩ := h.bytes
  have hnone : l.pending = [] := by
    rw [pending, hwire, hlost, if_neg Bool.false_ne_true, hsendq]
    rfl
  rw [hwhole hlost, List.append_nil, hnone, List.append_nil] at hbytes
  -- a message in the queue would be in the receive queue, and would have been handed over
  have hempty : (run (queueStep cfg handler) (Channel.start ⟨none, state⟩) acts).queue = [] := by
    rcases hqueue : (run (queueStep cfg handler) (Channel.start ⟨none, state⟩) acts).queue with
      _ | ⟨msg, rest⟩
    · rfl
    · have hframe := messageCoding.framing.frame_stable (rest.flatMap Message.toFrame)
        (messageCoding.framed (h.sized msg (by rw [hqueue]; exact List.mem_cons_self)))
      rw [hqueue, List.flatMap_cons] at hbytes
      have hwaits := h.waits
      rw [show (run (step cfg handler) (start m mempool state) as).receiver = l.receiver from rfl,
        hbytes] at hwaits
      cases hwaits.symm.trans hframe
  have hwholly := hall (h.lost.trans hlost)
  rw [hempty, List.map_nil, List.append_nil] at hwholly
  rw [hempty] at hbytes
  exact ⟨hwholly, hbytes⟩

end

/-! ### Two messages in pieces -/

def hello : Message := ⟨7, ⟨1, 100⟩, ⟨2, 101⟩, 1, [1, 2, 3]⟩

def bye : Message := ⟨8, ⟨1, 100⟩, ⟨2, 101⟩, 2, []⟩

/-- The chunk 0 has the first message and the chunk 1 the second one. -/
def heap : Bytes := fun c i => (if c = 0 then hello.toFrame else bye.toFrame).getD i 0

/-- The sockets take and return some bytes at a time, and the second message is sent before
    the first one has arrived. -/
def exchange : List Action :=
  [.io .accept, .send hello [⟨0, 0, 0, 19⟩] [.accept ⟨7, by decide⟩],
    .readable [.bytes ⟨5, by decide⟩], .send bye [⟨1, 0, 0, 16⟩] [], .io (.returned .again []),
    .io (.writeable false [.accept ⟨20, by decide⟩, .accept ⟨8, by decide⟩]),
    .readable [.bytes ⟨3, by decide⟩, .bytes ⟨12, by decide⟩, .bytes ⟨40, by decide⟩]]

/-- Where the exchange ends. -/
def exchanged : Link (List Message) :=
  run (step (NodeMonitor.clusterA []) ConnectorClient.quiet)
    (start heap (MemoryPool.emptyPool 3) []) exchange

theorem exchange_proper :
    Along (step (NodeMonitor.clusterA []) ConnectorClient.quiet) Proper
      (start heap (MemoryPool.emptyPool 3) []) exchange := by
  decide +kernel

theorem refines_exchange :
    ∃ acts,
      let c := run (queueStep (NodeMonitor.clusterA []) ConnectorClient.quiet)
        (Channel.start ⟨none, []⟩) acts
      c.sent = exchanged.sent ∧ c.lost = exchanged.lost ∧
        c.stage = ConnectorClient.stage exchanged.receiver ∧
        ∃ part, exchanged.receiver.received ++ exchanged.pending =
            c.queue.flatMap Message.toFrame ++ part ∧
          NodeMonitor.frontFrame part = none ∧ (exchanged.lost = false → part = []) :=
  refines (NodeMonitor.clusterA []) ConnectorClient.quiet (MemoryPool.emptyPool_inv 3) (by decide)
    heap [] exchange exchange_proper

theorem handed_eq_sent_exchange :
    exchanged.sent = [hello, bye] ∧
      exchanged.receiver.derived.handed.map Prod.fst = [hello, bye] := by
  have hsent : exchanged.sent = [hello, bye] := by decide +kernel
  have hquiet : exchanged.lost = false ∧ exchanged.wire = [] ∧ exchanged.sender.sendq = [] := by
    decide +kernel
  have hwire : [hello, bye].map Message.wire = [hello, bye] := by decide
  have hall := (handed_eq_sent (NodeMonitor.clusterA []) ConnectorClient.quiet
    (MemoryPool.emptyPool_inv 3) (by decide) heap [] exchange exchange_proper).2 hquiet.1 hquiet.2.1
    hquiet.2.2
  rw [← exchanged, hsent, hwire] at hall
  exact ⟨hsent, hall.1⟩

end Link

end Jengine.Cluster
