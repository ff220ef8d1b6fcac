import Jengine.Lib.Runs
import Jengine.Memory.MemoryChunk
import Mathlib.Data.PNat.Basic

/-!
# A client and its events

The members of `Client` and `EventIO` (`base/net/client.cpp`,
`base/event/eventio.cpp`) that connecting, sending and closing use, and every
way the dispatcher, the socket and the rest of the program move them.  What
`OnConnect`, `OnReceive` and the other callbacks do is not fixed: while one of
them runs the client is in a phase of its own, and `PushSend` and `Close` may
be called in any phase, by the callback or by other code.  `OnSendCompleted` is
always the last thing a call does, so what it does is a further action.

`sendq_` holds views of chunks that other code may write to.  The ghost
members record what the socket has accepted, what was pushed, and the two at
every call of `OnSendCompleted`.
-/

namespace Jengine.Net

open Jengine.Lib Jengine.Memory RefMemoryChunk

/-- `IOEventType`. -/
structure IOEvent where
  readable : Bool
  writeable : Bool
deriving DecidableEq, Repr

/-- Which callback of the client is running. -/
inductive Phase where
  | dispatcher
  /-- `OnConnect`, called by `Connect`. -/
  | connecting
  /-- `OnConnect`, called by `OnEventIOWriteable`. -/
  | completing
  | failing
  | receiving
deriving DecidableEq, Repr

structure ClientIO where
  connect : Bool
  connectPending : Bool
  closed : Bool
  /-- `list_linked`: the dispatcher has the client in `io_list_`. -/
  linked : Bool
  /-- The client is in `closed_io_list_`. -/
  queued : Bool
  /-- `fd_` is not -1. -/
  fdOpen : Bool
  ioevt : IOEvent
  sendq : List RefMemoryChunk
  mem : Bytes
  phase : Phase
  /-- An assertion has failed. -/
  aborted : Bool
  accepted : List UInt8
  pushed : List UInt8
  completed : List (List UInt8 × List UInt8)
  /-- `OnEventIOWriteable` has returned with the client connected. -/
  served : Bool

/-- What the socket has to say to a call of `writev`. -/
inductive Answer where
  | accept (n : ℕ+)
  | again
  | error

/-- What the socket has to say to a call of `readv`. -/
inductive Reading where
  | bytes
  | again
  | eof
  | error

/-- The result of `::connect`. -/
inductive Dialed where
  | connected
  | inProgress
  | failed

/-- The loop that takes the accepted bytes off the send queue. -/
def consume : Nat → List RefMemoryChunk → List RefMemoryChunk
  | _, [] => []
  | num, v :: vs =>
      if num = 0 then v :: vs
      else if v.count ≤ num then consume (num - v.count) vs
      else v.forwardOffset num :: vs

namespace ClientIO

/-- The constructor. -/
def fresh (m : Bytes) : ClientIO :=
  ⟨false, false, false, false, false, false, ⟨false, false⟩, [], m, .dispatcher, false, [], [], [],
    false⟩

/-- `SENDIOV_SIZE`. -/
def sendiovSize : Nat := 200

/-- `AddToDispatcher`, which asserts that the client is not in the list. -/
def addToDispatcher (s : ClientIO) (evt : IOEvent) : ClientIO :=
  if s.linked then { s with aborted := true }
  else { s with ioevt := evt, fdOpen := true, linked := true }

/-- `ModifyIOEvent`, which asserts that the client is in the list and that `epoll_ctl`
    knows its descriptor. -/
def modifyIOEvent (s : ClientIO) (evt : IOEvent) : ClientIO :=
  if s.linked && s.fdOpen then { s with ioevt := evt } else { s with aborted := true }

/-- `Close`. -/
def close (s : ClientIO) : ClientIO :=
  if !s.closed && s.linked then { s with closed := true, queued := true, fdOpen := false }
  else { s with fdOpen := false }

/-- `Sendq2IOVec`. -/
def sendq2IOVec (s : ClientIO) : List RefMemoryChunk := s.sendq.take sendiovSize

/-- The loop of `InvokeSend`, with the answers to its calls of `writev`; `EAGAIN`
    follows them.  The second component is `sendevt`. -/
def invokeSendLoop : List Answer → ClientIO → Bool → ClientIO × Bool
  | answers, s, sendevt =>
      if s.sendq2IOVec = [] then (s, sendevt)
      else if !s.fdOpen then (s.close, sendevt)
      else
        match answers with
        | [] => (s.modifyIOEvent ⟨true, true⟩, sendevt)
        | .again :: _ => (s.modifyIOEvent ⟨true, true⟩, sendevt)
        | .error :: _ => (s.close, sendevt)
        | .accept n :: answers =>
            let rc := min (n : Nat) (total s.sendq2IOVec)
            if rc = 0 then (s, sendevt)
            else
              invokeSendLoop answers
                { s with
                  sendq := consume rc s.sendq
                  accepted := s.accepted ++ (bytesOf s.mem s.sendq2IOVec).take rc } true

/-- `InvokeSend`. -/
def invokeSend (answers : List Answer) (s : ClientIO) : ClientIO :=
  let (s, sendevt) := invokeSendLoop answers s false
  if sendevt && s.sendq.isEmpty then { s with completed := s.completed ++ [(s.accepted, s.pushed)] }
  else s

/-- `PushSend`. -/
def pushSend (vs : List RefMemoryChunk) (answers : List Answer) (s : ClientIO) : ClientIO :=
  if s.connect then
    invokeSend answers { s with sendq := s.sendq ++ vs, pushed := s.pushed ++ bytesOf s.mem vs }
  else s

/-- The rest of `OnEventIOWriteable`, after `CheckIfConnectCompleted`. -/
def writeableRest (answers : List Answer) (s : ClientIO) : ClientIO :=
  if s.connect then
    let s := s.modifyIOEvent ⟨true, false⟩
    if s.aborted then s
    else { invokeSend answers s with phase := .dispatcher, served := true }
  else { s with phase := .dispatcher }

/-- `OnEventIOWriteable`, up to the callback of `CheckIfConnectCompleted` if there is one.
    `failed` is what `getsockopt` reports. -/
def onEventIOWriteable (failed : Bool) (answers : List Answer) (s : ClientIO) : ClientIO :=
  if s.connectPending then
    if failed then { s with connectPending := false, phase := .failing }
    else { s with connectPending := false, connect := true, phase := .completing }
  else writeableRest answers s

/-- One pass of the loop of `OnEventIOReadable`, up to `OnReceive`. -/
def readOnce (r : Reading) (s : ClientIO) : ClientIO :=
  if s.connect && !s.closed then
    match r with
    | .bytes => { s with phase := .receiving }
    | .again => { s with phase := .dispatcher }
    | .eof => { s.close with phase := .dispatcher }
    | .error => { s.close with phase := .dispatcher }
  else { s with phase := .dispatcher }

/-- What can happen to a client. -/
inductive Action where
  /-- `Connect(int)`. -/
  | accept
  /-- `Connect(const char*, int)`. -/
  | dial (rc : Dialed)
  | push (vs : List RefMemoryChunk) (answers : List Answer)
  | close
  /-- Other code writes to the chunks. -/
  | write (m : Bytes)
  | writeable (failed : Bool) (answers : List Answer)
  | readable (r : Reading)
  /-- The callback that is running returns. -/
  | returned (r : Reading) (answers : List Answer)
  /-- The dispatcher finalises a closed client. -/
  | finalize

def step (s : ClientIO) (a : Action) : ClientIO :=
  if s.aborted then s
  else
    match a with
    | .accept =>
        let s := s.addToDispatcher ⟨false, true⟩
        if s.aborted then s else { s with connect := true, phase := .connecting }
    | .dial rc =>
        let s := s.addToDispatcher ⟨false, true⟩
        if s.aborted then s
        else
          match rc with
          | .connected => { s with connect := true, phase := .connecting }
          | .inProgress => { s with connectPending := true }
          | .failed => { s with phase := .failing }
    | .push vs answers => s.pushSend vs answers
    | .close => s.close
    | .write m => { s with mem := m }
    | .writeable failed answers =>
        -- the dispatcher looks at `closed()` before every callback
        if s.phase = .dispatcher ∧ s.linked = true ∧ s.closed = false then
          s.onEventIOWriteable failed answers
        else s
    | .readable r =>
        if s.phase = .dispatcher ∧ s.linked = true ∧ s.closed = false then s.readOnce r else s
    | .returned r answers =>
        match s.phase with
        | .dispatcher => s
        | .connecting => { s with phase := .dispatcher }
        | .completing => s.writeableRest answers
        | .failing => { s.close with phase := .dispatcher }
        | .receiving => s.readOnce r
    | .finalize =>
        if s.phase = .dispatcher ∧ s.queued = true then
          { s with connect := false, linked := false, queued := false }
        else s

/-! ### Taking bytes off the send queue -/

theorem consume_zero (vs : List RefMemoryChunk) : consume 0 vs = vs := by
  cases vs <;> simp [consume]

theorem bytesOf_consume (m : Bytes) : ∀ (vs : List RefMemoryChunk) (n : Nat),
    bytesOf m (consume n vs) = (bytesOf m vs).drop n := by
  intro vs
  induction vs with
  | nil => intro n; simp [consume]
  | cons v vs ih =>
      intro n
      have hlen : (v.bytes m).length = v.count := length_bytes m v
      by_cases hn : n = 0
      · rw [hn, consume_zero, List.drop_zero]
      · by_cases hle : v.count ≤ n
        · -- the view is used up, whether the write ended in it or behind it
          have hnone : (v.bytes m).drop n = [] := List.drop_eq_nil_of_le (by omega)
          rw [consume, if_neg hn, if_pos hle, ih, bytesOf_cons, List.drop_append, hnone, hlen,
            List.nil_append]
        · rw [consume, if_neg hn, if_neg hle, bytesOf_cons, bytes_forwardOffset m v (by omega),
            bytesOf_cons, List.drop_append_of_le_length (by omega)]

theorem consume_filled : ∀ (vs : List RefMemoryChunk) (n : Nat), (∀ v ∈ vs, 0 < v.count) →
    ∀ v ∈ consume n vs, 0 < v.count := by
  intro vs
  induction vs with
  | nil => intro n h v hv; exact h v hv
  | cons v vs ih =>
      intro n h w hw
      by_cases hn : n = 0
      · rw [hn, consume_zero] at hw
        exact h w hw
      · by_cases hle : v.count ≤ n
        · rw [consume, if_neg hn, if_pos hle] at hw
          exact ih _ (fun u hu => h u (List.mem_cons_of_mem v hu)) w hw
        · rw [consume, if_neg hn, if_neg hle] at hw
          rcases List.mem_cons.mp hw with rfl | hw
          · simp only [forwardOffset, reset]
            omega
          · exact h w (List.mem_cons_of_mem v hw)

/-- The bytes accepted are the front of the queue, also where the queue is longer than the
    window of `Sendq2IOVec`. -/
theorem take_window (s : ClientIO) {n : Nat} (h : n ≤ total s.sendq2IOVec) :
    (bytesOf s.mem s.sendq2IOVec).take n = (bytesOf s.mem s.sendq).take n := by
  have hsplit : bytesOf s.mem s.sendq =
      bytesOf s.mem s.sendq2IOVec ++ bytesOf s.mem (s.sendq.drop sendiovSize) := by
    rw [← bytesOf_append, sendq2IOVec, List.take_append_drop]
  rw [hsplit, List.take_append_of_le_length (by rw [length_bytesOf]; exact h)]

/-! ### What sending keeps -/

/-- What a call of `InvokeSend` leaves alone, and what it leaves behind. -/
structure Sends (s r : ClientIO) : Prop where
  mem : r.mem = s.mem
  pushed : r.pushed = s.pushed
  connect : r.connect = s.connect
  linked : r.linked = s.linked
  served : r.served = s.served
  conserved : r.accepted ++ bytesOf r.mem r.sendq = s.accepted ++ bytesOf s.mem s.sendq
  filled : (∀ v ∈ s.sendq, 0 < v.count) → ∀ v ∈ r.sendq, 0 < v.count
  closed : s.closed = true → r.closed = true
  queued : (s.queued = true → s.closed = true) → r.queued = true → r.closed = true
  mask : r.ioevt = s.ioevt ∨ r.ioevt = ⟨true, true⟩
  armed : (∀ v ∈ s.sendq, 0 < v.count) → s.linked = true → r.aborted = false →
    r.closed = false → r.sendq = [] ∨ r.ioevt = ⟨true, true⟩

theorem Sends.trans {s t r : ClientIO} (h : Sends s t) (h' : Sends t r) : Sends s r where
  mem := h'.mem.trans h.mem
  pushed := h'.pushed.trans h.pushed
  connect := h'.connect.trans h.connect
  linked := h'.linked.trans h.linked
  served := h'.served.trans h.served
  conserved := h'.conserved.trans h.conserved
  filled := fun hf => h'.filled (h.filled hf)
  closed := fun hc => h'.closed (h.closed hc)
  queued := fun hq => h'.queued (h.queued hq)
  mask := by
    rcases h'.mask with hmask | hmask
    · rw [hmask]
      exact h.mask
    · exact Or.inr hmask
  armed := fun hf hl => h'.armed (h.filled hf) (h.linked.trans hl)

theorem sends_modifyIOEvent (s : ClientIO) : Sends s (s.modifyIOEvent ⟨true, true⟩) := by
  unfold modifyIOEvent
  split
  · exact ⟨rfl, rfl, rfl, rfl, rfl, rfl, id, id, id, Or.inr rfl, fun _ _ _ _ => Or.inr rfl⟩
  · exact ⟨rfl, rfl, rfl, rfl, rfl, rfl, id, id, id, Or.inl rfl, fun _ _ h => by cases h⟩

theorem sends_close (s : ClientIO) : Sends s s.close := by
  unfold close
  split
  · exact ⟨rfl, rfl, rfl, rfl, rfl, rfl, id, fun _ => rfl, fun _ _ => rfl, Or.inl rfl,
      fun _ _ _ h => by cases h⟩
  · rename_i hnot
    refine ⟨rfl, rfl, rfl, rfl, rfl, rfl, id, id, id, Or.inl rfl, ?_⟩
    intro _ hlinked _ hopen
    exact absurd (by simp only [hlinked, show s.closed = false from hopen]; rfl) hnot

/-- One successful call of `writev`. -/
theorem sends_accept (s : ClientIO) {rc : Nat} (h : rc ≤ total s.sendq2IOVec)
    (r : ClientIO) (hr : Sends { s with
      sendq := consume rc s.sendq
      accepted := s.accepted ++ (bytesOf s.mem s.sendq2IOVec).take rc } r) : Sends s r where
  mem := hr.mem
  pushed := hr.pushed
  connect := hr.connect
  linked := hr.linked
  served := hr.served
  conserved := by
    rw [hr.conserved]
    simp only
    rw [take_window s h, bytesOf_consume, List.append_assoc, List.take_append_drop]
  filled := fun hf => hr.filled (consume_filled _ _ hf)
  closed := hr.closed
  queued := hr.queued
  mask := hr.mask
  armed := fun hf hl => hr.armed (consume_filled _ _ hf) hl

theorem sends_refl {s : ClientIO}
    (h : (∀ v ∈ s.sendq, 0 < v.count) → s.sendq = []) : Sends s s :=
  ⟨rfl, rfl, rfl, rfl, rfl, rfl, id, id, id, Or.inl rfl, fun hf _ _ _ => Or.inl (h hf)⟩

theorem sendq_eq_nil {s : ClientIO} (h : s.sendq2IOVec = []) : s.sendq = [] := by
  rcases hq : s.sendq with _ | ⟨v, vs⟩
  · rfl
  · rw [sendq2IOVec, hq] at h
    cases h

/-- `writev` offers at least a byte, unless all views in the window are empty. -/
theorem total_window_pos {s : ClientIO} (hf : ∀ v ∈ s.sendq, 0 < v.count)
    (hne : s.sendq2IOVec ≠ []) : 0 < total s.sendq2IOVec := by
  rcases hq : s.sendq2IOVec with _ | ⟨v, vs⟩
  · exact absurd hq hne
  · have hmem : v ∈ s.sendq := by
      apply List.mem_of_mem_take (i := sendiovSize)
      show v ∈ s.sendq2IOVec
      rw [hq]
      exact List.mem_cons_self
    rw [total_cons]
    have := hf v hmem
    omega

theorem sends_invokeSendLoop : ∀ (answers : List Answer) (s : ClientIO) (sendevt : Bool),
    Sends s (invokeSendLoop answers s sendevt).1 ∧
      (invokeSendLoop answers s sendevt).1.completed = s.completed := by
  have hmodify : ∀ s : ClientIO, (s.modifyIOEvent ⟨true, true⟩).completed = s.completed := by
    intro s
    unfold modifyIOEvent
    split <;> rfl
  have hclose : ∀ s : ClientIO, s.close.completed = s.completed := by
    intro s
    unfold close
    split <;> rfl
  intro answers
  induction answers with
  | nil =>
      intro s sendevt
      unfold invokeSendLoop
      split
      · rename_i hnil
        exact ⟨sends_refl fun _ => sendq_eq_nil hnil, rfl⟩
      · split
        · exact ⟨sends_close s, hclose s⟩
        · exact ⟨sends_modifyIOEvent s, hmodify s⟩
  | cons answer answers ih =>
      intro s sendevt
      unfold invokeSendLoop
      split
      · rename_i hnil
        exact ⟨sends_refl fun _ => sendq_eq_nil hnil, rfl⟩
      · rename_i hne
        split
        · exact ⟨sends_close s, hclose s⟩
        · cases answer with
          | again => exact ⟨sends_modifyIOEvent s, hmodify s⟩
          | error => exact ⟨sends_close s, hclose s⟩
          | accept n =>
              simp only
              split
              · rename_i hzero
                refine ⟨sends_refl fun hf => ?_, rfl⟩
                have hpos := total_window_pos hf hne
                have hn := n.pos
                omega
              · obtain ⟨hsends, hcompleted⟩ := ih { s with
                  sendq := consume (min (n : Nat) (total s.sendq2IOVec)) s.sendq
                  accepted := s.accepted ++ (bytesOf s.mem s.sendq2IOVec).take
                    (min (n : Nat) (total s.sendq2IOVec)) } true
                exact ⟨sends_accept s (Nat.min_le_right _ _) _ hsends, hcompleted⟩

/-- `InvokeSend`, and the call of `OnSendCompleted` if there is one. -/
theorem sends_invokeSend (answers : List Answer) (s : ClientIO) :
    Sends s (invokeSend answers s) ∧
      ((invokeSend answers s).completed = s.completed ∨
        (invokeSend answers s).sendq = [] ∧ (invokeSend answers s).completed =
          s.completed ++ [((invokeSend answers s).accepted, (invokeSend answers s).pushed)]) := by
  obtain ⟨hsends, hcompleted⟩ := sends_invokeSendLoop answers s false
  rcases hloop : invokeSendLoop answers s false with ⟨r, sendevt⟩
  rw [hloop] at hsends hcompleted
  simp only [invokeSend, hloop]
  split
  · rename_i hdone
    rw [Bool.and_eq_true, List.isEmpty_iff] at hdone
    refine ⟨⟨hsends.mem, hsends.pushed, hsends.connect, hsends.linked, hsends.served,
      hsends.conserved, hsends.filled, hsends.closed, hsends.queued, hsends.mask, hsends.armed⟩,
      Or.inr ⟨hdone.2, ?_⟩⟩
    rw [← hcompleted]
  · exact ⟨hsends, Or.inl hcompleted⟩

end ClientIO

end Jengine.Net
