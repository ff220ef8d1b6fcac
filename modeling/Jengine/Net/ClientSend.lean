import Jengine.Net.ClientIO

/-!
# Nothing pushed is lost, and nothing queued is forgotten

Two invariants of the runs of a client.  The bytes the socket has accepted and
the bytes still queued are what was pushed, in order, as long as nobody writes
to chunks that are queued; and a client with bytes in its queue waits for the
writable event that will send them.  Both come from `Sends`, what one call of
`InvokeSend` leaves behind, and hold in every phase, so also whenever control
is back in the dispatcher.
-/

namespace Jengine.Net

open Jengine.Lib Jengine.Memory RefMemoryChunk

namespace ClientIO

/-! ### Bytes are conserved -/

/-- Nobody writes to a chunk that is queued. -/
def Untouched (s : ClientIO) : Action → Prop
  | .write m => ∀ v ∈ s.sendq, v.bytes m = v.bytes s.mem
  | _ => True

/-- Accepted and queued bytes together are the pushed ones, and whenever
    `OnSendCompleted` was called all of them had been accepted. -/
structure Conserved (s : ClientIO) : Prop where
  bytes : s.accepted ++ bytesOf s.mem s.sendq = s.pushed
  completed : ∀ e ∈ s.completed, e.1 = e.2

theorem Conserved.of_eq {s r : ClientIO} (h : Conserved s) (hmem : r.mem = s.mem)
    (hsendq : r.sendq = s.sendq) (haccepted : r.accepted = s.accepted)
    (hpushed : r.pushed = s.pushed) (hcompleted : r.completed = s.completed) : Conserved r := by
  constructor
  · rw [hmem, hsendq, haccepted, hpushed]
    exact h.bytes
  · rw [hcompleted]
    exact h.completed

theorem Conserved.modifyIOEvent {s : ClientIO} (h : Conserved s) (evt : IOEvent) :
    Conserved (s.modifyIOEvent evt) := by
  unfold ClientIO.modifyIOEvent
  split
  · exact h.of_eq rfl rfl rfl rfl rfl
  · exact h.of_eq rfl rfl rfl rfl rfl

theorem Conserved.addToDispatcher {s : ClientIO} (h : Conserved s) (evt : IOEvent) :
    Conserved (s.addToDispatcher evt) := by
  unfold ClientIO.addToDispatcher
  split
  · exact h.of_eq rfl rfl rfl rfl rfl
  · exact h.of_eq rfl rfl rfl rfl rfl

theorem Conserved.close {s : ClientIO} (h : Conserved s) : Conserved s.close := by
  unfold ClientIO.close
  split
  · exact h.of_eq rfl rfl rfl rfl rfl
  · exact h.of_eq rfl rfl rfl rfl rfl

theorem Conserved.invokeSend {s : ClientIO} (h : Conserved s) (answers : List Answer) :
    Conserved (invokeSend answers s) := by
  obtain ⟨hsends, hcompleted⟩ := sends_invokeSend answers s
  have hbytes : (s.invokeSend answers).accepted ++
      bytesOf (s.invokeSend answers).mem (s.invokeSend answers).sendq =
      (s.invokeSend answers).pushed := by
    rw [hsends.conserved, hsends.pushed]
    exact h.bytes
  refine ⟨hbytes, ?_⟩
  rcases hcompleted with heq | ⟨hempty, heq⟩
  · rw [heq]
    exact h.completed
  · rw [heq]
    intro e he
    rcases List.mem_append.mp he with he | he
    · exact h.completed e he
    · rw [List.mem_singleton.mp he]
      rw [hempty, bytesOf_nil, List.append_nil] at hbytes
      exact hbytes

theorem Conserved.pushSend {s : ClientIO} (h : Conserved s) (vs : List RefMemoryChunk)
    (answers : List Answer) : Conserved (s.pushSend vs answers) := by
  unfold ClientIO.pushSend
  split
  · apply Conserved.invokeSend
    refine ⟨?_, h.completed⟩
    simp only
    rw [bytesOf_append, ← List.append_assoc, h.bytes]
  · exact h

theorem Conserved.writeableRest {s : ClientIO} (h : Conserved s) (answers : List Answer) :
    Conserved (s.writeableRest answers) := by
  unfold ClientIO.writeableRest
  split
  · simp only
    split
    · exact h.modifyIOEvent _
    · exact ((h.modifyIOEvent ⟨true, false⟩).invokeSend answers).of_eq rfl rfl rfl rfl rfl
  · exact h.of_eq rfl rfl rfl rfl rfl

theorem Conserved.readOnce {s : ClientIO} (h : Conserved s) (r : Reading) :
    Conserved (s.readOnce r) := by
  unfold ClientIO.readOnce
  split
  · cases r with
    | bytes => exact h.of_eq rfl rfl rfl rfl rfl
    | again => exact h.of_eq rfl rfl rfl rfl rfl
    | eof => exact h.close.of_eq rfl rfl rfl rfl rfl
    | error => exact h.close.of_eq rfl rfl rfl rfl rfl
  · exact h.of_eq rfl rfl rfl rfl rfl

theorem Conserved.step {s : ClientIO} {a : Action} (h : Conserved s) (ha : Untouched s a) :
    Conserved (s.step a) := by
  unfold ClientIO.step
  split
  · exact h
  cases a with
  | accept =>
      have hadd := h.addToDispatcher ⟨false, true⟩
      simp only
      split
      · exact hadd
      · exact hadd.of_eq rfl rfl rfl rfl rfl
  | dial rc =>
      have hadd := h.addToDispatcher ⟨false, true⟩
      simp only
      split
      · exact hadd
      · cases rc with
        | connected => exact hadd.of_eq rfl rfl rfl rfl rfl
        | inProgress => exact hadd.of_eq rfl rfl rfl rfl rfl
        | failed => exact hadd.of_eq rfl rfl rfl rfl rfl
  | push vs answers => exact h.pushSend vs answers
  | close => exact h.close
  | write m =>
      refine ⟨?_, h.completed⟩
      rw [bytesOf_congr ha]
      exact h.bytes
  | writeable failed answers =>
      simp only
      split
      · unfold onEventIOWriteable
        split
        · split
          · exact h.of_eq rfl rfl rfl rfl rfl
          · exact h.of_eq rfl rfl rfl rfl rfl
        · exact h.writeableRest answers
      · exact h
  | readable r =>
      simp only
      split
      · exact h.readOnce r
      · exact h
  | returned r answers =>
      simp only
      split
      · exact h
      · exact h.of_eq rfl rfl rfl rfl rfl
      · exact h.writeableRest answers
      · exact h.close.of_eq rfl rfl rfl rfl rfl
      · exact h.readOnce r
  | finalize =>
      simp only
      split
      · exact h.of_eq rfl rfl rfl rfl rfl
      · exact h

/-- What a step queues: the bytes that `PushSend` is given, on a connected client. -/
def given (s : ClientIO) : Action → List UInt8
  | .push vs _ => if s.aborted = false ∧ s.connect = true then bytesOf s.mem vs else []
  | _ => []

/-- The chunks behind a step. -/
def memBehind (s : ClientIO) : Action → Bytes
  | .write m => if s.aborted then s.mem else m
  | _ => s.mem

/-- Nothing is pushed, and no chunk is written to. -/
structure Unpushed (s r : ClientIO) : Prop where
  mem : r.mem = s.mem
  pushed : r.pushed = s.pushed

theorem Unpushed.trans {s t r : ClientIO} (h : Unpushed s t) (h' : Unpushed t r) : Unpushed s r :=
  ⟨h'.mem.trans h.mem, h'.pushed.trans h.pushed⟩

theorem unpushed_close (s : ClientIO) : Unpushed s s.close := by
  unfold ClientIO.close
  split
  · exact ⟨rfl, rfl⟩
  · exact ⟨rfl, rfl⟩

theorem unpushed_modifyIOEvent (s : ClientIO) (evt : IOEvent) :
    Unpushed s (s.modifyIOEvent evt) := by
  unfold ClientIO.modifyIOEvent
  split
  · exact ⟨rfl, rfl⟩
  · exact ⟨rfl, rfl⟩

theorem unpushed_addToDispatcher (s : ClientIO) (evt : IOEvent) :
    Unpushed s (s.addToDispatcher evt) := by
  unfold ClientIO.addToDispatcher
  split
  · exact ⟨rfl, rfl⟩
  · exact ⟨rfl, rfl⟩

theorem unpushed_writeableRest (s : ClientIO) (answers : List Answer) :
    Unpushed s (s.writeableRest answers) := by
  have hmodify := unpushed_modifyIOEvent s ⟨true, false⟩
  unfold ClientIO.writeableRest
  split
  · simp only
    split
    · exact hmodify
    · obtain ⟨hsends, -⟩ := sends_invokeSend answers (s.modifyIOEvent ⟨true, false⟩)
      exact hmodify.trans ⟨hsends.mem, hsends.pushed⟩
  · exact ⟨rfl, rfl⟩

theorem unpushed_readOnce (s : ClientIO) (r : Reading) : Unpushed s (s.readOnce r) := by
  have hclose := unpushed_close s
  unfold ClientIO.readOnce
  split
  · cases r with
    | bytes => exact ⟨rfl, rfl⟩
    | again => exact ⟨rfl, rfl⟩
    | eof => exact ⟨hclose.mem, hclose.pushed⟩
    | error => exact ⟨hclose.mem, hclose.pushed⟩
  · exact ⟨rfl, rfl⟩

/-- A step other than `PushSend` and a write by other code. -/
theorem unpushed_step (s : ClientIO) {a : Action} (hpush : ∀ vs answers, a ≠ .push vs answers)
    (hwrite : ∀ m, a ≠ .write m) : Unpushed s (s.step a) := by
  have hclose := unpushed_close s
  have hadd := unpushed_addToDispatcher s ⟨false, true⟩
  unfold ClientIO.step
  split
  · exact ⟨rfl, rfl⟩
  cases a with
  | accept =>
      simp only
      split
      · exact hadd
      · exact ⟨hadd.mem, hadd.pushed⟩
  | dial rc =>
      simp only
      split
      · exact hadd
      · cases rc with
        | connected => exact ⟨hadd.mem, hadd.pushed⟩
        | inProgress => exact ⟨hadd.mem, hadd.pushed⟩
        | failed => exact ⟨hadd.mem, hadd.pushed⟩
  | push vs answers => exact absurd rfl (hpush vs answers)
  | close => exact hclose
  | write m => exact absurd rfl (hwrite m)
  | writeable failed answers =>
      simp only
      split
      · unfold ClientIO.onEventIOWriteable
        split
        · split
          · exact ⟨rfl, rfl⟩
          · exact ⟨rfl, rfl⟩
        · exact unpushed_writeableRest s answers
      · exact ⟨rfl, rfl⟩
  | readable r =>
      simp only
      split
      · exact unpushed_readOnce s r
      · exact ⟨rfl, rfl⟩
  | returned r answers =>
      simp only
      split
      · exact ⟨rfl, rfl⟩
      · exact ⟨rfl, rfl⟩
      · exact unpushed_writeableRest s answers
      · exact ⟨hclose.mem, hclose.pushed⟩
      · exact unpushed_readOnce s r
  | finalize =>
      simp only
      split
      · exact ⟨rfl, rfl⟩
      · exact ⟨rfl, rfl⟩

/-- Only other code writes to the chunks, and `pushed` grows by what `PushSend` is given. -/
theorem pushed_step (s : ClientIO) (a : Action) :
    (s.step a).mem = memBehind s a ∧ (s.step a).pushed = s.pushed ++ given s a := by
  cases a with
  | push vs answers =>
      by_cases hopen : s.aborted = false ∧ s.connect = true
      · obtain ⟨hsends, -⟩ := sends_invokeSend answers
          { s with sendq := s.sendq ++ vs, pushed := s.pushed ++ bytesOf s.mem vs }
        have hpush : s.step (.push vs answers) = invokeSend answers
            { s with sendq := s.sendq ++ vs, pushed := s.pushed ++ bytesOf s.mem vs } := by
          rw [ ClientIO.step, if_neg (Bool.eq_false_iff.mp hopen.1)]
          exact if_pos hopen.2
        rw [hpush, given, if_pos hopen]
        exact ⟨hsends.mem, hsends.pushed⟩
      · have hsame : s.step (.push vs answers) = s := by
          unfold ClientIO.step
          split
          · rfl
          · rename_i haborted
            exact if_neg fun hconnect => hopen ⟨Bool.eq_false_iff.mpr haborted, hconnect⟩
        rw [hsame, given, if_neg hopen]
        exact ⟨rfl, (List.append_nil _).symm⟩
  | write m =>
      simp only [ ClientIO.step, memBehind, given, List.append_nil]
      split
      · exact ⟨rfl, rfl⟩
      · exact ⟨rfl, rfl⟩
  | accept | dial _ | close | writeable _ _ | readable _ | returned _ _ | finalize =>
      refine ⟨(unpushed_step s ?_ ?_).mem,
        (unpushed_step s ?_ ?_).pushed.trans (List.append_nil _).symm⟩
      all_goals simp

/-- What the calls of `PushSend` in a run are given. -/
def givenAlong : ClientIO → List Action → List UInt8
  | _, [] => []
  | s, a :: as => given s a ++ givenAlong (s.step a) as

theorem pushed_run (s : ClientIO) (as : List Action) :
    (run ClientIO.step s as).pushed = s.pushed ++ givenAlong s as := by
  induction as generalizing s with
  | nil => exact (List.append_nil _).symm
  | cons a as ih =>
      rw [run_cons, ih, (pushed_step s a).2, givenAlong, List.append_assoc]

/-- **What the socket accepted and what is queued are what was pushed.**  For every run of
    a client, however its writes end, as long as no queued chunk is written to. -/
theorem run_conserved (m : Bytes) (as : List Action)
    (has : Along ClientIO.step Untouched (fresh m) as) :
    (run ClientIO.step (fresh m) as).accepted ++
        bytesOf (run ClientIO.step (fresh m) as).mem (run ClientIO.step (fresh m) as).sendq =
      (run ClientIO.step (fresh m) as).pushed ∧
    ∀ e ∈ (run ClientIO.step (fresh m) as).completed, e.1 = e.2 := by
  have hstart : Conserved (fresh m) := ⟨rfl, fun e he => absurd he List.not_mem_nil⟩
  have hrun := run_invariant (fun s a (hs : Conserved s) ha => hs.step ha) hstart has
  exact ⟨hrun.bytes, hrun.completed⟩

/-- Two chunks of four bytes, sent in pieces of three and two before the socket is full,
    with a write to another chunk in between. -/
def pieces : List Action :=
  [.accept, .push [⟨0, 0, 0, 4⟩, ⟨1, 0, 0, 4⟩] [.accept 3, .accept 2, .again],
    .write (fun c i => if c = 2 then 7 else UInt8.ofNat (10 * c + i)),
    .returned .again [], .writeable false [.accept 9]]

theorem run_conserved_pieces :
    (run ClientIO.step (fresh fun c i => UInt8.ofNat (10 * c + i)) pieces).accepted ++
        bytesOf (run ClientIO.step (fresh fun c i => UInt8.ofNat (10 * c + i)) pieces).mem
          (run ClientIO.step (fresh fun c i => UInt8.ofNat (10 * c + i)) pieces).sendq =
      (run ClientIO.step (fresh fun c i => UInt8.ofNat (10 * c + i)) pieces).pushed ∧
    ∀ e ∈ (run ClientIO.step (fresh fun c i => UInt8.ofNat (10 * c + i)) pieces).completed,
      e.1 = e.2 := by
  apply run_conserved
  refine ⟨trivial, trivial, ?_, trivial, trivial, trivial⟩
  show ∀ v ∈ _, _
  decide

/-! ### Queued bytes are waited for -/

/-- Only views with bytes in them are pushed. -/
def NonEmpty (_ : ClientIO) : Action → Prop
  | .push vs _ => ∀ v ∈ vs, 0 < v.count
  | _ => True

/-- The mask of an open client has what the client waits for. -/
structure Armed (s : ClientIO) : Prop where
  filled : ∀ v ∈ s.sendq, 0 < v.count
  linked : s.connect = true → s.linked = true
  idle : s.connect = false → s.closed = false → s.sendq = []
  served : s.served = true → s.closed = false → s.linked = true
  queued : s.queued = true → s.closed = true
  writeable : s.aborted = false → s.connect = true → s.closed = false → s.sendq ≠ [] →
    s.ioevt.writeable = true
  readable : s.aborted = false → s.served = true → s.closed = false → s.ioevt.readable = true

/-- Changes that neither queue bytes, nor open or connect the client, nor touch its mask. -/
theorem Armed.of_eq {s r : ClientIO} (h : Armed s) (hsendq : r.sendq = s.sendq)
    (hconnect : r.connect = s.connect) (hlinked : r.linked = s.linked)
    (hioevt : r.ioevt = s.ioevt) (hserved : r.served = s.served)
    (hqueued : r.queued = true → r.closed = true)
    (haborted : r.aborted = false → s.aborted = false)
    (hclosed : r.closed = false → s.closed = false) : Armed r where
  filled := by
    rw [hsendq]
    exact h.filled
  linked := by
    rw [hconnect, hlinked]
    exact h.linked
  idle := fun hc ho => by
    rw [hsendq]
    exact h.idle (hconnect ▸ hc) (hclosed ho)
  served := fun hs ho => by
    rw [hlinked]
    exact h.served (hserved ▸ hs) (hclosed ho)
  queued := hqueued
  writeable := fun ha hc ho hq => by
    rw [hioevt]
    exact h.writeable (haborted ha) (hconnect ▸ hc) (hclosed ho) (hsendq ▸ hq)
  readable := fun ha hs ho => by
    rw [hioevt]
    exact h.readable (haborted ha) (hserved ▸ hs) (hclosed ho)

/-- A change of the phase alone. -/
theorem Armed.phase {s : ClientIO} (h : Armed s) (phase : Phase) :
    Armed { s with phase := phase } :=
  h.of_eq rfl rfl rfl rfl rfl h.queued id id

theorem Armed.abort {s : ClientIO} (h : Armed s) : Armed { s with aborted := true } :=
  h.of_eq rfl rfl rfl rfl rfl h.queued (fun ha => by cases ha) id

theorem Armed.close {s : ClientIO} (h : Armed s) : Armed s.close := by
  unfold ClientIO.close
  split
  · exact h.of_eq rfl rfl rfl rfl rfl (fun _ => rfl) id (fun hc => by cases hc)
  · exact h.of_eq rfl rfl rfl rfl rfl h.queued id id

/-- What `InvokeSend` needs of the client to leave it armed: the mask may still lack what
    the queue calls for. -/
theorem Armed.of_sends {s r : ClientIO} (h : Sends s r) (hfilled : ∀ v ∈ s.sendq, 0 < v.count)
    (hconnect : s.connect = true) (hlinked : s.linked = true)
    (hqueued : s.queued = true → s.closed = true)
    (hreadable : s.served = true → s.closed = false → s.ioevt.readable = true) : Armed r where
  filled := h.filled hfilled
  linked := fun _ => h.linked.trans hlinked
  idle := fun hc => by
    rw [h.connect, hconnect] at hc
    cases hc
  served := fun _ _ => h.linked.trans hlinked
  queued := h.queued hqueued
  writeable := fun ha _ ho hq => by
    rcases h.armed hfilled hlinked ha ho with hnil | hmask
    · exact absurd hnil hq
    · rw [hmask]
  readable := fun _ hs ho => by
    rcases h.mask with hmask | hmask
    · rw [hmask]
      refine hreadable (h.served ▸ hs) ?_
      by_contra hc
      rw [h.closed (Bool.eq_true_of_not_eq_false hc)] at ho
      cases ho
    · rw [hmask]

theorem Armed.pushSend {s : ClientIO} (h : Armed s) (ha : s.aborted = false)
    {vs : List RefMemoryChunk} (hvs : ∀ v ∈ vs, 0 < v.count) (answers : List Answer) :
    Armed (s.pushSend vs answers) := by
  unfold ClientIO.pushSend
  split
  · rename_i hconnect
    refine Armed.of_sends (sends_invokeSend answers _).1 ?_ hconnect (h.linked hconnect) h.queued
      (h.readable ha)
    intro v hv
    rcases List.mem_append.mp hv with hv | hv
    · exact h.filled v hv
    · exact hvs v hv
  · exact h

/-- The writable handler takes the writable bit away and has it put back by `InvokeSend`
    if bytes are left. -/
theorem Armed.writeableRest {s : ClientIO} (h : Armed s) (answers : List Answer) :
    Armed (s.writeableRest answers) := by
  unfold ClientIO.writeableRest
  split
  · rename_i hconnect
    have hlinked := h.linked hconnect
    simp only
    by_cases hknown : (s.linked && s.fdOpen) = true
    · have hmodify : s.modifyIOEvent ⟨true, false⟩ = { s with ioevt := ⟨true, false⟩ } :=
        if_pos hknown
      rw [hmodify]
      split
      · rename_i haborted
        exact ⟨h.filled, h.linked, h.idle, fun _ _ => hlinked, h.queued,
          fun ha => absurd (haborted.symm.trans ha) (by decide), fun _ _ _ => rfl⟩
      · have hsends := (sends_invokeSend answers { s with ioevt := ⟨true, false⟩ }).1
        have harmed := Armed.of_sends hsends h.filled hconnect hlinked h.queued fun _ _ => rfl
        refine ⟨harmed.filled, harmed.linked, harmed.idle, fun _ _ => hsends.linked.trans hlinked, harmed.queued,
          harmed.writeable, fun _ _ _ => ?_⟩
        rcases hsends.mask with hmask | hmask
        · rw [hmask]
        · rw [hmask]
    · have hmodify : s.modifyIOEvent ⟨true, false⟩ = { s with aborted := true } := if_neg hknown
      rw [hmodify]
      exact h.abort
  · exact h.phase _

theorem Armed.readOnce {s : ClientIO} (h : Armed s) (r : Reading) : Armed (s.readOnce r) := by
  unfold ClientIO.readOnce
  split
  · cases r with
    | bytes => exact h.phase _
    | again => exact h.phase _
    | eof => exact h.close.phase _
    | error => exact h.close.phase _
  · exact h.phase _

/-- A client that was not in the dispatcher's list has not been connected, so it waits for
    nothing yet. -/
theorem Armed.added {s r : ClientIO} (h : Armed s) (hnew : s.linked = false)
    (hsendq : r.sendq = s.sendq) (hserved : r.served = s.served) (hclosed : r.closed = s.closed)
    (hqueued : r.queued = s.queued) (hlinked : r.linked = true) (hioevt : r.ioevt.writeable = true) :
    Armed r where
  filled := by
    rw [hsendq]
    exact h.filled
  linked := fun _ => hlinked
  idle := fun _ ho => by
    have hapart : s.connect = false := by
      by_contra hc
      rw [h.linked (Bool.eq_true_of_not_eq_false hc)] at hnew
      cases hnew
    rw [hsendq]
    exact h.idle hapart (hclosed ▸ ho)
  served := fun _ _ => hlinked
  queued := by
    rw [hqueued, hclosed]
    exact h.queued
  writeable := fun _ _ _ _ => hioevt
  readable := fun _ hs ho => by
    have hold := h.served (hserved ▸ hs) (hclosed ▸ ho)
    rw [hnew] at hold
    cases hold

theorem Armed.step {s : ClientIO} {a : Action} (h : Armed s) (ha : NonEmpty s a) :
    Armed (s.step a) := by
  unfold ClientIO.step
  split
  · exact h
  rename_i hrunning
  have hrunning : s.aborted = false := Bool.eq_false_of_not_eq_true hrunning
  cases a with
  | accept =>
      simp only
      unfold ClientIO.addToDispatcher
      split
      · exact h.abort
      · rename_i hnew
        simp only [hrunning]
        exact h.added (Bool.eq_false_of_not_eq_true hnew) rfl rfl rfl rfl rfl rfl
  | dial rc =>
      simp only
      unfold ClientIO.addToDispatcher
      split
      · exact h.abort
      · rename_i hnew
        have hnew := Bool.eq_false_of_not_eq_true hnew
        simp only [hrunning]
        cases rc with
        | connected => exact h.added hnew rfl rfl rfl rfl rfl rfl
        | inProgress => exact h.added hnew rfl rfl rfl rfl rfl rfl
        | failed => exact h.added hnew rfl rfl rfl rfl rfl rfl
  | push vs answers => exact h.pushSend hrunning ha answers
  | close => exact h.close
  | write m => exact h.of_eq rfl rfl rfl rfl rfl h.queued id id
  | writeable failed answers =>
      simp only
      split
      · rename_i hguard
        unfold onEventIOWriteable
        split
        · split
          · exact h.of_eq rfl rfl rfl rfl rfl h.queued id id
          · -- nothing can have been queued before the connection was there
            refine ⟨h.filled, fun _ => hguard.2.1, fun hc => (Bool.false_ne_true hc.symm).elim, h.served,
              h.queued, ?_,
              h.readable⟩
            intro _ _ ho hq
            rcases hc : s.connect with _ | _
            · exact absurd (h.idle hc ho) hq
            · exact h.writeable hrunning hc ho hq
        · exact h.writeableRest answers
      · exact h
  | readable r =>
      simp only
      split
      · exact h.readOnce r
      · exact h
  | returned r answers =>
      simp only
      split
      · exact h
      · exact h.phase _
      · exact h.writeableRest answers
      · exact h.close.phase _
      · exact h.readOnce r
  | finalize =>
      simp only
      split
      · rename_i hguard
        have hclosed := h.queued hguard.2
        have hnever : ∀ {p : Prop}, s.closed = false → p := by
          intro p ho
          rw [ho] at hclosed
          cases hclosed
        exact ⟨h.filled, fun hc => (Bool.false_ne_true hc).elim, fun _ ho => hnever ho,
          fun _ ho => hnever ho, fun hq => (Bool.false_ne_true hq).elim, fun _ _ ho => hnever ho,
          h.readable⟩
      · exact h

/-- **A client with bytes in its queue waits for the writable event.**  For every run of a
    client whose pushed views are not empty: when control is back in the dispatcher, a
    connected open client that has bytes queued has the writable bit in its mask, and
    after its first writable event it has the readable bit until it closes. -/
theorem run_armed (m : Bytes) (as : List Action)
    (has : Along ClientIO.step NonEmpty (fresh m) as)
    (hback : (run ClientIO.step (fresh m) as).phase = .dispatcher ∧
      (run ClientIO.step (fresh m) as).aborted = false) :
    ((run ClientIO.step (fresh m) as).connect = true →
      (run ClientIO.step (fresh m) as).closed = false →
      (run ClientIO.step (fresh m) as).sendq ≠ [] →
      (run ClientIO.step (fresh m) as).ioevt.writeable = true) ∧
    ((run ClientIO.step (fresh m) as).served = true →
      (run ClientIO.step (fresh m) as).closed = false →
      (run ClientIO.step (fresh m) as).ioevt.readable = true) := by
  have hstart : Armed (fresh m) := by
    refine ⟨?_, fun hc => (Bool.false_ne_true hc).elim, fun _ _ => rfl,
      fun hs => (Bool.false_ne_true hs).elim, fun hq => (Bool.false_ne_true hq).elim,
      fun _ hc => (Bool.false_ne_true hc).elim, fun _ hs => (Bool.false_ne_true hs).elim⟩
    exact fun v hv => absurd hv List.not_mem_nil
  have hrun := run_invariant (fun s a (hs : Armed s) ha => hs.step ha) hstart has
  exact ⟨hrun.writeable hback.2, hrun.readable hback.2⟩

/-- An active connection: it completes on a writable event, and a later push meets a full
    socket. -/
def stalled : List Action :=
  [.dial .inProgress, .writeable false [], .returned .again [],
    .push [⟨0, 0, 0, 4⟩] [.accept 1, .again]]

theorem run_armed_stalled :
    ((run ClientIO.step (fresh fun _ _ => 0) stalled).sendq = [⟨0, 1, 0, 3⟩] ∧
      (run ClientIO.step (fresh fun _ _ => 0) stalled).served = true) ∧
    ((run ClientIO.step (fresh fun _ _ => 0) stalled).connect = true →
      (run ClientIO.step (fresh fun _ _ => 0) stalled).closed = false →
      (run ClientIO.step (fresh fun _ _ => 0) stalled).sendq ≠ [] →
      (run ClientIO.step (fresh fun _ _ => 0) stalled).ioevt.writeable = true) ∧
    ((run ClientIO.step (fresh fun _ _ => 0) stalled).served = true →
      (run ClientIO.step (fresh fun _ _ => 0) stalled).closed = false →
      (run ClientIO.step (fresh fun _ _ => 0) stalled).ioevt.readable = true) := by
  refine ⟨by decide, run_armed _ _ ⟨trivial, trivial, trivial, ?_, trivial⟩ (by decide)⟩
  show ∀ v ∈ [(⟨0, 0, 0, 4⟩ : RefMemoryChunk)], 0 < v.count
  decide

end ClientIO

end Jengine.Net
