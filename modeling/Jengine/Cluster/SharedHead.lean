import Jengine.Cluster.MessageOut
import Jengine.Net.ClientSend

/-!
# One message sent several times

`NodeMonitor::SendMessage` (`base/cluster/nodemonitor.cpp`) writes the head of a
message, and gives views of its chunks to a connector's send queue or to a call
of the next frame.  What the socket or the mailbox gets is what the chunks hold
when the views are read.  A node sends one `MessageOut` again and again, to
mailboxes of its own and of other nodes, while the sockets take the queued bytes
in pieces of any size and the calls of the next frame come in any order.
-/

namespace Jengine.Cluster

open Jengine.Lib Jengine.Memory RefMemoryChunk Jengine.Gateway Jengine.Net PacketOut

structure Outbox where
  /-- The id of the local node. -/
  id : UInt8
  /-- The nodes there are connectors for. -/
  nodes : List UInt8
  /-- The message, with the heap of chunks. -/
  msg : MessageOut
  links : UInt8 → ClientIO
  /-- What was sent to a node, as the message was at each call. -/
  casts : UInt8 → List Message
  /-- The calls of the next frame: the message at the call of `SendMessage`, and the views. -/
  calls : List (Message × List RefMemoryChunk)
  /-- What the handlers of local mailboxes got, with what was sent. -/
  got : List (Message × Message)
  /-- An assertion has failed, or an exception has not been caught. -/
  aborted : Bool

namespace Outbox

def mem (s : Outbox) : Bytes := s.msg.out.pool.mem

def start (id : UInt8) (nodes : List UInt8) (msg : MessageOut) : Outbox where
  id := id
  nodes := nodes
  msg := msg
  links := fun _ => ClientIO.fresh msg.out.pool.mem
  casts := fun _ => []
  calls := []
  got := []
  aborted := false

/-- The program's own chunks have changed: every send queue has views of them. -/
def share (s : Outbox) (msg : MessageOut) : Outbox :=
  { s with
    msg := msg
    links := fun n => { s.links n with mem := msg.out.pool.mem } }

/-- `SetFrom`, `SetTo` and `SetSession`. -/
def addressed (s : Outbox) (sender receiver : MailboxID) (session : UInt16) : MessageOut :=
  { s.msg with sender := sender, receiver := receiver, session := session }

/-- `PushSend` on the connector of a node; it is no send if the connector is not connected. -/
def pushSend (s : Outbox) (n : UInt8) (msg : Message) (data : List RefMemoryChunk)
    (answers : List Answer) : Outbox :=
  { s with
    links := Function.update s.links n ((s.links n).step (.push data answers))
    casts :=
      if (s.links n).aborted = false ∧ (s.links n).connect = true then
        Function.update s.casts n (s.casts n ++ [msg])
      else s.casts }

/-- `NodeMonitor::SendMessage`. -/
def sendMessage (s : Outbox) (msg : MessageOut) (answers : List Answer) : Outbox :=
  if s.id = msg.receiver.nodeid then
    match msg.writeHead with
    | .ok p =>
        { s.share p with calls := s.calls ++ [(msg.message, fetchData p.out.packet)] }
    | .error _ => { s with aborted := true }
  else if msg.receiver.nodeid ∈ s.nodes then
    match msg.writeHead with
    | .ok p =>
        (s.share p).pushSend msg.receiver.nodeid msg.message (fetchData p.out.packet) answers
    | .error _ => { s with aborted := true }
  else { s with msg := msg }

/-- `SendInternalMessageAtNextCall`, for one of the calls. -/
def callNext (s : Outbox) (i : Nat) : Outbox :=
  match s.calls[i]? with
  | some (msg, data) =>
      { s with
        calls := s.calls.eraseIdx i
        got := s.got ++ [(msg, Message.ofFrame (bytesOf s.mem data))] }
  | none => s

inductive Action where
  | send (sender receiver : MailboxID) (session : UInt16) (answers : List Answer)
  /-- Something happens to the connector of a node. -/
  | io (n : UInt8) (a : ClientIO.Action)
  | call (i : Nat)

/-- The only code that sends or writes is `SendMessage`. -/
def external : ClientIO.Action → Bool
  | .push _ _ => false
  | .write _ => false
  | _ => true

def step (s : Outbox) : Action → Outbox
  | .send sender receiver session answers =>
      s.sendMessage (s.addressed sender receiver session) answers
  | .io n a =>
      if n ∈ s.nodes ∧ external a = true then
        { s with links := Function.update s.links n ((s.links n).step a) }
      else s
  | .call i => s.callNext i

/-- The views that are still to be read. -/
def outstanding (s : Outbox) : List RefMemoryChunk :=
  s.nodes.flatMap (fun n => (s.links n).sendq) ++ s.calls.flatMap Prod.snd

/-- The head that is about to be written has the bytes that are there already, wherever
    these are still to be read; and its ids fit. -/
def Unshared (s : Outbox) : Action → Prop
  | .send sender receiver session _ =>
      let msg := (s.addressed sender receiver session).message
      s.id = receiver.nodeid ∨ receiver.nodeid ∈ s.nodes →
        msg.Fits ∧ ∀ e ∈ (cells s.msg.out.packet.data).zip msg.head,
          e.1 ∈ cells s.outstanding → e.2 = s.mem e.1.1 e.1.2
  | _ => True

instance (s : Outbox) (a : Action) : Decidable (s.Unshared a) := by
  cases a <;> unfold Unshared <;> infer_instance

/-! ### The connectors -/

/-- What happens to a connector from outside pushes nothing. -/
theorem step_external (l : ClientIO) {a : ClientIO.Action} (h : external a = true) :
    (l.step a).mem = l.mem ∧ (l.step a).pushed = l.pushed := by
  obtain ⟨hmem, hpushed⟩ := ClientIO.pushed_step l a
  cases a with
  | push vs answers => cases h
  | write m => cases h
  | accept | dial _ | close | writeable _ _ | readable _ | returned _ _ | finalize =>
      exact ⟨hmem, hpushed.trans (List.append_nil _)⟩

theorem step_push (l : ClientIO) (data : List RefMemoryChunk) (answers : List Answer) :
    (l.step (.push data answers)).mem = l.mem ∧ (l.step (.push data answers)).pushed =
      if l.aborted = false ∧ l.connect = true then l.pushed ++ bytesOf l.mem data
      else l.pushed := by
  obtain ⟨hmem, hpushed⟩ := ClientIO.pushed_step l (.push data answers)
  refine ⟨hmem, hpushed.trans ?_⟩
  rw [ ClientIO.given]
  split
  · rfl
  · exact List.append_nil _

/-! ### The invariant -/

/-- Everything that is still to be read is there as it was sent. -/
structure Faithful (payload : List UInt8) (s : Outbox) : Prop where
  holds : s.msg.Holds payload
  running : s.aborted = false
  heap : ∀ n, (s.links n).mem = s.mem
  conserved : ∀ n, (s.links n).Conserved
  idle : ∀ n, n ∉ s.nodes → (s.links n).sendq = []
  pushed : ∀ n, (s.links n).pushed = (s.casts n).flatMap Message.toFrame
  fits : ∀ n, ∀ msg ∈ s.casts n, msg.Fits
  pending : ∀ e ∈ s.calls, bytesOf s.mem e.2 = e.1.toFrame ∧ e.1.Fits
  received : ∀ e ∈ s.got, e.2 = e.1

theorem faithful_start {id : UInt8} {nodes : List UInt8} {msg : MessageOut} {payload : List UInt8}
    (h : msg.Holds payload) : Faithful payload (start id nodes msg) where
  holds := h
  running := rfl
  heap := fun _ => rfl
  conserved := fun _ => ⟨rfl, fun _ he => absurd he List.not_mem_nil⟩
  idle := fun _ _ => rfl
  pushed := fun _ => rfl
  fits := fun _ _ hm => absurd hm List.not_mem_nil
  pending := fun _ he => absurd he List.not_mem_nil
  received := fun _ he => absurd he List.not_mem_nil

/-- The message after `WriteHead` can be handed out: its views have the bytes of the message
    at the call, and nobody else's bytes have changed. -/
theorem Faithful.writeHead {s : Outbox} {payload : List UInt8} (h : Faithful payload s)
    {sender receiver : MailboxID} {session : UInt16}
    (hsame : ∀ e ∈ (cells s.msg.out.packet.data).zip
      (s.addressed sender receiver session).message.head,
      e.1 ∈ cells s.outstanding → e.2 = s.mem e.1.1 e.1.2) :
    ∃ p, (s.addressed sender receiver session).writeHead = .ok p ∧
      Faithful payload (s.share p) ∧
      bytesOf p.out.pool.mem (fetchData p.out.packet) =
        (s.addressed sender receiver session).message.toFrame := by
  have hholds : (s.addressed sender receiver session).Holds payload :=
    ⟨h.holds.rep, h.holds.chunksize, h.holds.size, h.holds.room, h.holds.bytes⟩
  obtain ⟨out, hwrite, hnew, hregion, hbytes, hframe⟩ := MessageOut.writeHead_spec hholds
  have hkept : ∀ c ∈ cells s.outstanding, out.pool.mem c.1 c.2 = s.mem c.1 c.2 := by
    intro c hc
    apply MessageOut.writeHead_same hregion hbytes hframe
    rintro e he rfl
    exact hsame e he hc
  have hviews : ∀ v ∈ s.outstanding, v.bytes out.pool.mem = v.bytes s.mem := by
    intro v hv
    exact bytes_congr_cells fun c hc => hkept c (mem_cells_of_mem hv hc)
  have hlinks : ∀ n, bytesOf out.pool.mem (s.links n).sendq = bytesOf s.mem (s.links n).sendq := by
    intro n
    by_cases hn : n ∈ s.nodes
    · refine bytesOf_congr fun v hv => hviews v (List.mem_append_left _ ?_)
      exact List.mem_flatMap.mpr ⟨n, hn, hv⟩
    · rw [h.idle n hn, bytesOf_nil, bytesOf_nil]
  have hcalls : ∀ e ∈ s.calls, bytesOf out.pool.mem e.2 = bytesOf s.mem e.2 := by
    intro e he
    refine bytesOf_congr fun v hv => hviews v (List.mem_append_right _ ?_)
    exact List.mem_flatMap.mpr ⟨e, he, hv⟩
  refine ⟨_, hwrite, ⟨hnew, h.running, fun _ => rfl, ?_, h.idle, h.pushed, h.fits, ?_,
    h.received⟩, ?_⟩
  · intro n
    refine ⟨?_, (h.conserved n).completed⟩
    show (s.links n).accepted ++ bytesOf out.pool.mem (s.links n).sendq = _
    rw [hlinks n, ← h.heap n]
    exact (h.conserved n).bytes
  · intro e he
    obtain ⟨hread, hfits⟩ := h.pending e he
    exact ⟨(hcalls e he).trans hread, hfits⟩
  · have hlen := (s.addressed sender receiver session).message.length_head
    rw [fetchData, bytesOf_fetchChunks, hbytes, hnew.size, Message.toFrame_eq,
      hholds.payload_eq, List.take_append, hlen, Nat.add_sub_cancel_left,
      List.take_of_length_le (by omega)]
    congr 1
    exact hholds.bytes

/-- A connector moves on, with some more messages sent. -/
theorem Faithful.relink {s : Outbox} {payload : List UInt8} (h : Faithful payload s) {n : UInt8}
    (hn : n ∈ s.nodes) {l : ClientIO} (sent : List Message) (hmem : l.mem = s.mem)
    (hconserved : l.Conserved)
    (hpushed : l.pushed = (s.casts n ++ sent).flatMap Message.toFrame)
    (hfits : ∀ msg ∈ sent, msg.Fits) :
    Faithful payload { s with
      links := Function.update s.links n l
      casts := Function.update s.casts n (s.casts n ++ sent) } := by
  -- every field says something of each connector: of this one, or of one that is as before
  have hall : ∀ P : UInt8 → ClientIO → List Message → Prop, P n l (s.casts n ++ sent) →
      (∀ m, m ≠ n → P m (s.links m) (s.casts m)) →
      ∀ m, P m (Function.update s.links n l m)
        (Function.update s.casts n (s.casts n ++ sent) m) := by
    intro P hself hother m
    by_cases hm : m = n
    · rw [hm, Function.update_self, Function.update_self]
      exact hself
    · rw [Function.update_of_ne hm, Function.update_of_ne hm]
      exact hother m hm
  refine ⟨h.holds, h.running, ?_, ?_, ?_, ?_, ?_, h.pending, h.received⟩
  · exact hall (fun _ link _ => link.mem = s.mem) hmem fun m _ => h.heap m
  · exact hall (fun _ link _ => link.Conserved) hconserved fun m _ => h.conserved m
  · exact hall (fun m link _ => m ∉ s.nodes → link.sendq = []) (fun hout => absurd hn hout)
      fun m _ => h.idle m
  · exact hall (fun _ link casts => link.pushed = casts.flatMap Message.toFrame) hpushed
      fun m _ => h.pushed m
  · refine hall (fun _ _ casts => ∀ msg ∈ casts, msg.Fits) ?_ fun m _ => h.fits m
    intro msg hmsg
    rcases List.mem_append.mp hmsg with hmsg | hmsg
    · exact h.fits n msg hmsg
    · exact hfits msg hmsg

theorem Faithful.pushSend {s : Outbox} {payload : List UInt8} (h : Faithful payload s) {n : UInt8}
    (hn : n ∈ s.nodes) {msg : Message} (hfits : msg.Fits) {data : List RefMemoryChunk}
    (hdata : bytesOf s.mem data = msg.toFrame) (answers : List Answer) :
    Faithful payload (s.pushSend n msg data answers) := by
  obtain ⟨hmem, hpushed⟩ := step_push (s.links n) data answers
  have hstep : ((s.links n).step (.push data answers)).Conserved := (h.conserved n).step trivial
  rw [h.heap n] at hmem hpushed
  unfold Outbox.pushSend
  by_cases hsent : (s.links n).aborted = false ∧ (s.links n).connect = true
  · rw [if_pos hsent] at hpushed ⊢
    apply h.relink hn [msg] hmem hstep
    · rw [hpushed, h.pushed n, hdata, List.flatMap_append, List.flatMap_singleton]
    · intro m hm
      rw [List.mem_singleton.mp hm]
      exact hfits
  · rw [if_neg hsent] at hpushed ⊢
    have hnone := h.relink hn [] hmem hstep
      (by rw [hpushed, h.pushed n, List.append_nil]) fun _ hm => absurd hm List.not_mem_nil
    rwa [List.append_nil, Function.update_eq_self] at hnone

theorem Faithful.send {s : Outbox} {payload : List UInt8} (h : Faithful payload s)
    {sender receiver : MailboxID} {session : UInt16} {answers : List Answer}
    (ha : s.Unshared (.send sender receiver session answers)) :
    Faithful payload (s.step (.send sender receiver session answers)) := by
  show Faithful payload (s.sendMessage (s.addressed sender receiver session) answers)
  unfold sendMessage
  split
  next hlocal =>
    obtain ⟨hfits, hsame⟩ := ha (Or.inl hlocal)
    obtain ⟨p, hwrite, hshare, hdata⟩ := h.writeHead hsame
    rw [hwrite]
    refine { hshare with pending := ?_ }
    intro e he
    rcases List.mem_append.mp he with he | he
    · exact hshare.pending e he
    · rw [List.mem_singleton.mp he]
      exact ⟨hdata, hfits⟩
  next =>
    split
    next hnode =>
      obtain ⟨hfits, hsame⟩ := ha (Or.inr hnode)
      obtain ⟨p, hwrite, hshare, hdata⟩ := h.writeHead hsame
      rw [hwrite]
      exact hshare.pushSend hnode hfits hdata answers
    next =>
      exact { h with
        holds := ⟨h.holds.rep, h.holds.chunksize, h.holds.size, h.holds.room, h.holds.bytes⟩ }

theorem Faithful.call {s : Outbox} {payload : List UInt8} (h : Faithful payload s) (i : Nat) :
    Faithful payload (s.callNext i) := by
  unfold callNext
  split
  next msg data hcall =>
    obtain ⟨hread, hfits⟩ := h.pending (msg, data) (List.mem_of_getElem? hcall)
    refine { h with
      pending := fun e he => h.pending e (List.mem_of_mem_eraseIdx he)
      received := ?_ }
    intro e he
    rcases List.mem_append.mp he with he | he
    · exact h.received e he
    · rw [List.mem_singleton.mp he]
      rw [hread]
      exact Message.ofFrame_toFrame_of_fits hfits
  next => exact h

theorem Faithful.io {s : Outbox} {payload : List UInt8} (h : Faithful payload s) {n : UInt8}
    (hn : n ∈ s.nodes) {a : ClientIO.Action} (ha : external a = true) :
    Faithful payload { s with links := Function.update s.links n ((s.links n).step a) } := by
  obtain ⟨hmem, hpushed⟩ := step_external (s.links n) ha
  have huntouched : (s.links n).Untouched a := by
    cases a with
    | write m => cases ha
    | _ => trivial
  have hnone := h.relink hn [] (hmem.trans (h.heap n))
    ((h.conserved n).step huntouched) (by rw [hpushed, h.pushed n, List.append_nil])
    fun _ hm => absurd hm List.not_mem_nil
  rwa [List.append_nil, Function.update_eq_self] at hnone

theorem Faithful.step {s : Outbox} {payload : List UInt8} (h : Faithful payload s) (a : Action)
    (ha : s.Unshared a) : Faithful payload (s.step a) := by
  cases a with
  | send sender receiver session answers => exact h.send ha
  | io n a =>
      show Faithful payload (if n ∈ s.nodes ∧ external a = true then _ else s)
      split
      next hio => exact h.io hio.1 hio.2
      next => exact h
  | call i => exact h.call i

/-- If no byte of the head that is still to be read changes in a send, every node gets the
    messages as they were sent: what its socket has accepted and what is queued for it are
    the frames of these messages, and they are read back as the messages.  So are the
    messages to local mailboxes. -/
theorem run_faithful (id : UInt8) (nodes : List UInt8) {msg : MessageOut} {payload : List UInt8}
    (hmsg : msg.Holds payload) (as : List Action)
    (has : Along step Unshared (start id nodes msg) as) :
    let s := run step (start id nodes msg) as
    s.aborted = false ∧
      (∀ n, (s.links n).accepted ++ bytesOf s.mem (s.links n).sendq =
          (s.casts n).flatMap Message.toFrame ∧
        ∀ m ∈ s.casts n, Message.ofFrame m.toFrame = m) ∧
      (∀ e ∈ s.calls, Message.ofFrame (bytesOf s.mem e.2) = e.1) ∧
      ∀ e ∈ s.got, e.2 = e.1 := by
  intro s
  have h : Faithful payload s :=
    run_invariant (fun t a ht ha => ht.step a ha) (faithful_start hmsg) has
  refine ⟨h.running, ?_, ?_, h.received⟩
  · intro n
    refine ⟨?_, fun m hm => Message.ofFrame_toFrame_of_fits (h.fits n m hm)⟩
    rw [← h.pushed n, ← (h.conserved n).bytes, h.heap n]
  · intro e he
    obtain ⟨hread, hfits⟩ := h.pending e he
    rw [hread]
    exact Message.ofFrame_toFrame_of_fits hfits

/-! ### A message with three bytes -/

/-- `MessageOut(7, 16, mempool)` with three bytes of payload. -/
def three : Except Fault MessageOut := do
  let p ← MessageOut.make 7 16 (MemoryPool.emptyPool 64)
  let (_, out) ← putByte [1, 2, 3] p.out
  return { p with out := out }

theorem three_holds : ∃ msg, three = .ok msg ∧ msg.Holds [1, 2, 3] := by
  have happ : Appends (putByte [1, 2, 3]) [1, 2, 3] := appends_putByte (by decide)
  obtain ⟨p, out, hmake, hput, hholds⟩ := MessageOut.make_holds 7 16
    (MemoryPool.emptyPool_inv 64) (by decide) (by decide) happ (by decide)
  refine ⟨{ p with out := out }, ?_, hholds⟩
  simp only [three, hmake, hput, bind, Except.bind, pure, Except.pure]

/-- A message to another node that its socket takes whole, one to a local mailbox, which is
    called, and one more to the other node, of which the socket takes ten bytes. -/
def inTurn : List Action :=
  [.io 2 .accept, .send ⟨1, 100⟩ ⟨2, 101⟩ 1 [.accept 100], .send ⟨1, 100⟩ ⟨1, 102⟩ 2 [], .call 0,
    .send ⟨1, 100⟩ ⟨2, 103⟩ 3 [.accept 10]]

theorem run_faithful_inTurn :
    ∃ msg, three = .ok msg ∧ msg.Holds [1, 2, 3] ∧
      Along step Unshared (start 1 [2] msg) inTurn ∧
      (run step (start 1 [2] msg) inTurn).casts 2 =
        [⟨7, ⟨1, 100⟩, ⟨2, 101⟩, 1, [1, 2, 3]⟩, ⟨7, ⟨1, 100⟩, ⟨2, 103⟩, 3, [1, 2, 3]⟩] ∧
      ((run step (start 1 [2] msg) inTurn).links 2).accepted.length = 29 ∧
      ((run step (start 1 [2] msg) inTurn).links 2).accepted ++
        bytesOf (run step (start 1 [2] msg) inTurn).mem
          ((run step (start 1 [2] msg) inTurn).links 2).sendq =
        ((run step (start 1 [2] msg) inTurn).casts 2).flatMap Message.toFrame := by
  obtain ⟨msg, hthree, hholds⟩ := three_holds
  have hrun : three.toOption.map (fun msg => decide (Along step Unshared (start 1 [2] msg) inTurn ∧
      (run step (start 1 [2] msg) inTurn).casts 2 =
        [⟨7, ⟨1, 100⟩, ⟨2, 101⟩, 1, [1, 2, 3]⟩, ⟨7, ⟨1, 100⟩, ⟨2, 103⟩, 3, [1, 2, 3]⟩] ∧
      ((run step (start 1 [2] msg) inTurn).links 2).accepted.length = 29)) = some true := by
    decide +kernel
  rw [hthree, Except.toOption, Option.map_some, Option.some.injEq, decide_eq_true_eq] at hrun
  obtain ⟨has, hcasts, hlen⟩ := hrun
  exact ⟨msg, hthree, hholds, has, hcasts, hlen,
    ((run_faithful 1 [2] hholds inTurn has).2.1 2).1⟩

/-- Two messages for local mailboxes in one frame. -/
def sameFrame : List Action :=
  [.send ⟨1, 100⟩ ⟨1, 101⟩ 1 [], .send ⟨1, 100⟩ ⟨1, 102⟩ 2 [], .call 0, .call 0]

/-- Both handlers get the head of the second one. -/
theorem not_faithful_sameFrame :
    ∃ msg, three = .ok msg ∧ msg.Holds [1, 2, 3] ∧
      (run step (start 1 [] msg) sameFrame).got =
        [(⟨7, ⟨1, 100⟩, ⟨1, 101⟩, 1, [1, 2, 3]⟩, ⟨7, ⟨1, 100⟩, ⟨1, 102⟩, 2, [1, 2, 3]⟩),
          (⟨7, ⟨1, 100⟩, ⟨1, 102⟩, 2, [1, 2, 3]⟩, ⟨7, ⟨1, 100⟩, ⟨1, 102⟩, 2, [1, 2, 3]⟩)] := by
  obtain ⟨msg, hthree, hholds⟩ := three_holds
  refine ⟨msg, hthree, hholds, ?_⟩
  have hrun : three.toOption.map (fun msg => (run step (start 1 [] msg) sameFrame).got) =
      some [(⟨7, ⟨1, 100⟩, ⟨1, 101⟩, 1, [1, 2, 3]⟩, ⟨7, ⟨1, 100⟩, ⟨1, 102⟩, 2, [1, 2, 3]⟩),
        (⟨7, ⟨1, 100⟩, ⟨1, 102⟩, 2, [1, 2, 3]⟩, ⟨7, ⟨1, 100⟩, ⟨1, 102⟩, 2, [1, 2, 3]⟩)] := by
    decide +kernel
  rw [hthree, Except.toOption, Option.map_some, Option.some.injEq] at hrun
  exact hrun

end Outbox

end Jengine.Cluster
