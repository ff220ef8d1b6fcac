import Jengine.Lib.Lines
import Jengine.Net.Passes

/-!
# A request and what the handler is told

`HttpClient` (`base/http/httpclient.cpp`) after one `SendAsync`: the connection comes about or
fails, the bytes that are received go through `http_parser`, and the handler is told of every
response, error and close.  The client reads pass by pass; `Close` may be called between two
passes, by the parser's callback, and by the handler whenever it is told something.

`http_parser` is a parameter.  It is fed the bytes in whatever pieces the receive pool has, and
`Reports` says what is relied on: it reports every complete response once, and the first parse
error and every call after it by a length that is not the whole.  It also returns such a length,
and no error, where more bytes of the call are behind a response with an `Upgrade` header.
-/

namespace Jengine.Http

open Jengine.Lib Jengine.Memory Jengine.Net RefMemoryChunk

/-! ### `http_parser` -/

/-- The callbacks that `http_parser_settings` names. -/
inductive Callback where
  | messageBegin
  | body (bytes : List UInt8)
  | messageComplete
deriving DecidableEq, Repr

/-- A call of `http_parser_execute`: its callbacks, the length it returns, and the parser it
    leaves. -/
structure Executed (σ : Type) where
  callbacks : List Callback
  returned : Nat
  parser : σ

structure HttpParser (σ : Type) where
  init : σ
  execute : σ → List UInt8 → Executed σ

namespace HttpParser

variable {σ : Type}

/-- The parser after these bytes, in pieces each of which it took as a whole. -/
inductive Fed (parser : HttpParser σ) : List UInt8 → σ → Prop
  | init : Fed parser [] parser.init
  | execute {xs : List UInt8} {st : σ} (bs : List UInt8) (h : Fed parser xs st) (ne : bs ≠ [])
      (whole : (parser.execute st bs).returned = bs.length) :
      Fed parser (xs ++ bs) (parser.execute st bs).parser

end HttpParser

/-- What the bytes that a server has sent amount to. -/
structure Grammar where
  /-- So many responses are complete. -/
  responses : List UInt8 → Nat
  /-- There is a parse error. -/
  bad : List UInt8 → Bool
  /-- The last byte ends a response that has an `Upgrade` header. -/
  upgraded : List UInt8 → Bool

namespace Grammar

/-- Behind `xs` a response that has an `Upgrade` header ends in `bs`, before the last byte. -/
def UpgradedIn (g : Grammar) (xs bs : List UInt8) : Prop :=
  ∃ ps qs, bs = ps ++ qs ∧ ps ≠ [] ∧ qs ≠ [] ∧ g.upgraded (xs ++ ps) = true

/-- No such response ends inside one of the pieces. -/
def Undivided (g : Grammar) : List UInt8 → List (List UInt8) → Prop
  | _, [] => True
  | xs, bs :: pieces => ¬ g.UpgradedIn xs bs ∧ g.Undivided (xs ++ bs) pieces

end Grammar

namespace HttpParser

variable {σ : Type}

/-- The parser reports the `responses` that are complete in the bytes so far, each once, and
    returns less than the given length when the bytes are `bad`, and ever after.  It ends the call
    at a response that has an `Upgrade` header. -/
structure Reports (parser : HttpParser σ) (g : Grammar) : Prop where
  responses_nil : g.responses [] = 0
  bad_nil : g.bad [] = false
  completes : ∀ xs st bs, parser.Fed xs st → bs ≠ [] → ¬ g.UpgradedIn xs bs →
    g.responses (xs ++ bs) =
      g.responses xs + (parser.execute st bs).callbacks.count .messageComplete
  returned : ∀ xs st bs, parser.Fed xs st → bs ≠ [] → ¬ g.UpgradedIn xs bs →
    ((parser.execute st bs).returned = bs.length ↔ g.bad (xs ++ bs) = false)
  failed : ∀ xs st bs, parser.Fed xs st → bs ≠ [] → ¬ g.UpgradedIn xs bs →
    g.bad (xs ++ bs) = true → ∀ more, more ≠ [] →
      (parser.execute (parser.execute st bs).parser more).returned ≠ more.length
  ended : ∀ xs st bs, parser.Fed xs st → g.UpgradedIn xs bs →
    (parser.execute st bs).returned ≠ bs.length ∧
      .messageComplete ∈ (parser.execute st bs).callbacks
  bad_append : ∀ xs bs, g.bad xs = true → g.bad (xs ++ bs) = true
  silent : ∀ xs bs, g.bad xs = true → g.responses (xs ++ bs) = g.responses xs
  upgraded : ∀ xs, g.upgraded xs = true → g.bad xs = false

/-- The parser has taken the bytes, or it will not take any. -/
structure Parsed (parser : HttpParser σ) (g : Grammar) (xs : List UInt8) (st : σ) : Prop where
  fed : g.bad xs = false → parser.Fed xs st
  failed : g.bad xs = true → ∀ bs, bs ≠ [] → (parser.execute st bs).returned ≠ bs.length

section

variable {parser : HttpParser σ} {g : Grammar} (h : parser.Reports g)

include h

theorem Reports.good {xs : List UInt8} {st : σ} (hfed : parser.Fed xs st) :
    g.bad xs = false := by
  cases hfed with
  | init => exact h.bad_nil
  | execute bs hfed ne whole =>
      exact (h.returned _ _ _ hfed ne fun hin => (h.ended _ _ _ hfed hin).1 whole).mp whole

theorem Reports.parsed_init : parser.Parsed g [] parser.init :=
  ⟨fun _ => .init, fun hbad => absurd (h.bad_nil.symm.trans hbad) Bool.false_ne_true⟩

/-- A call that is not ended by an upgrade. -/
theorem Reports.parsed {xs bs : List UInt8} {st : σ} (hfed : parser.Fed xs st) (ne : bs ≠ [])
    (hin : ¬ g.UpgradedIn xs bs) :
    parser.Parsed g (xs ++ bs) (parser.execute st bs).parser where
  fed := fun hgood => hfed.execute bs ne ((h.returned _ _ _ hfed ne hin).mpr hgood)
  failed := h.failed _ _ _ hfed ne hin

/-- No response is complete in what follows a parse error. -/
theorem Reports.undivided_of_bad {xs : List UInt8} (hbad : g.bad xs = true)
    (pieces : List (List UInt8)) : g.Undivided xs pieces := by
  induction pieces generalizing xs with
  | nil => exact trivial
  | cons bs pieces ih =>
      refine ⟨fun ⟨ps, _, _, _, _, hups⟩ => ?_, ih (h.bad_append _ bs hbad)⟩
      have hgood := h.upgraded _ hups
      rw [h.bad_append _ ps hbad] at hgood
      exact absurd hgood.symm Bool.false_ne_true

end

end HttpParser

/-! ### The client -/

/-- What the handler is told. -/
inductive Notification where
  | response (body : List UInt8)
  | error (msg : String)
  | close
deriving DecidableEq, Repr

/-- `OnHttpResponse` and `OnHttpError`. -/
def Notification.terminal : Notification → Bool
  | .response _ => true
  | .error _ => true
  | .close => false

/-- The handler decides by everything it has been told whether it closes the client. -/
abbrev Handler := List Notification → Bool

/-- The members of `HttpClient` and those of its base classes that `Net.Client` leaves out. -/
structure Members (σ : Type) where
  parser : σ
  respBody : List UInt8
  connectPending : Bool
  /-- `list_linked`: the dispatcher has the client in `io_list_`. -/
  linked : Bool
  /-- The bytes given to the parser. -/
  fed : List UInt8
  notified : List Notification

abbrev HttpClient (σ : Type) := Net.Client (Members σ)

namespace HttpClient

variable {σ : Type} (parser : HttpParser σ) (handler : Handler)

/-- `Close`, which does nothing where the dispatcher does not have the client. -/
def close (c : HttpClient σ) : HttpClient σ := if c.derived.linked then Net.Client.close c else c

/-- A call of the handler. -/
def notify (n : Notification) (c : HttpClient σ) : HttpClient σ :=
  let c := { c with derived := { c.derived with notified := c.derived.notified ++ [n] } }
  if handler c.derived.notified then close c else c

/-- `message_begin_cb`, `body_cb` and `message_complete_cb`. -/
def callback (c : HttpClient σ) : Callback → HttpClient σ
  | .messageBegin => c
  | .body bytes => { c with derived := { c.derived with respBody := c.derived.respBody ++ bytes } }
  | .messageComplete =>
      close (notify handler (.response (c.derived.respBody.takeWhile (· ≠ 0))) c)

/-- `http_parser_execute` on the parser of the client. -/
def execute (bs : List UInt8) (c : HttpClient σ) : Nat × HttpClient σ :=
  let r := parser.execute c.derived.parser bs
  let c := r.callbacks.foldl (callback handler) c
  (r.returned, { c with derived := { c.derived with
    parser := r.parser, fed := c.derived.fed ++ bs } })

/-- The loop of `OnReceive`, which does not look at `closed_`. -/
def onReceiveLoop : List RefMemoryChunk → HttpClient σ → HttpClient σ
  | [], c => c
  | v :: vs, c =>
      let (returned, c) := execute parser handler (v.bytes c.pool.mem) c
      if returned ≠ v.count then notify handler (.error "parser error") c
      else onReceiveLoop vs c

/-- `OnReceive`. -/
def onReceive (count : Nat) (c : HttpClient σ) : HttpClient σ :=
  let (data, c) := c.popReceive count
  let c := onReceiveLoop parser handler data c
  { c with pool := c.pool.releaseAll data }

/-- `OnConnectFail`, and the `Close` behind it. -/
def connectFail (reason : String) (c : HttpClient σ) : HttpClient σ :=
  close (notify handler (.error reason) c)

/-- `OnConnectSuccess`; `Flush` closes the client if `writev` fails. -/
def onConnectSuccess (sendError : Bool) (c : HttpClient σ) : HttpClient σ :=
  let c := { c with connect := true }
  if sendError then close c else c

/-- `CheckIfConnectCompleted`; `failed` is what `getsockopt` reports. -/
def checkIfConnectCompleted (failed : Option String) (sendError : Bool) (c : HttpClient σ) :
    HttpClient σ :=
  let c := { c with derived := { c.derived with connectPending := false } }
  match failed with
  | some reason => connectFail handler reason c
  | none => onConnectSuccess sendError c

/-- `OnEventIOWriteable`. -/
def onEventIOWriteable (failed : Option String) (sendError : Bool) (c : HttpClient σ) :
    HttpClient σ :=
  let c :=
    if c.derived.connectPending then checkIfConnectCompleted handler failed sendError c else c
  if c.connect && sendError then close c else c

/-- `OnEventIOClose`. -/
def onEventIOClose (c : HttpClient σ) : HttpClient σ :=
  if c.connect then notify handler .close { c with connect := false } else c

/-- How `SendAsync` ends. -/
inductive Sent where
  /-- `http_parser_parse_url` fails. -/
  | badUri
  | noHost
  | refused (reason : String)
  | inProgress
  | connected (sendError : Bool)
deriving DecidableEq, Repr

/-- The constructor. -/
def fresh (mempool : MemoryPool) : HttpClient σ :=
  ⟨mempool, false, false, [], 0, [], ⟨parser.init, [], false, false, [], []⟩⟩

/-- `SendAsync` on a client just constructed. -/
def sendAsync (mempool : MemoryPool) (sent : Sent) : HttpClient σ :=
  let c := fresh parser mempool
  let added := { c with derived := { c.derived with linked := true } }
  match sent with
  | .badUri => notify handler (.error "parser uri fail") c
  | .noHost => notify handler (.error "parser uri fail: no host") c
  | .refused reason => connectFail handler reason added
  | .inProgress => { added with derived := { added.derived with connectPending := true } }
  | .connected sendError => onConnectSuccess sendError added

/-- What can happen afterwards. -/
inductive Action where
  | writeable (failed : Option String) (sendError : Bool)
  /-- One pass of the loop of `OnEventIOReadable`, or `Close`. -/
  | pass (a : Pass)
  /-- The dispatcher finalises a closed client. -/
  | finalize

def step (c : HttpClient σ) : Action → HttpClient σ
  | .writeable failed sendError =>
      if c.derived.linked && !c.closed then onEventIOWriteable handler failed sendError c else c
  | .pass a => if c.derived.linked then Net.Client.pass (onReceive parser handler) c a else c
  | .finalize =>
      if c.derived.linked && c.closed then
        let c := onEventIOClose handler c
        { c with derived := { c.derived with linked := false } }
      else c

/-- At most one response or error, and nothing behind the close. -/
def NotifiedOnce (ns : List Notification) : Prop :=
  ns.countP Notification.terminal ≤ 1 ∧ ∀ before behind, ns = before ++ .close :: behind →
    behind = []

/-- The client reads nothing after a parse error; no response that has an `Upgrade` header ends
    inside a piece of what it reads, and that holds no second response and not both a response
    and an error. -/
def ReadsOne (g : Grammar) (c : HttpClient σ) (a : Action) : Prop :=
  match a with
  | .pass (.bytes bs) => c.derived.linked = true → c.Receives bs →
      g.bad c.derived.fed = false ∧ g.Undivided c.derived.fed (c.pieces bs) ∧
        g.responses (c.derived.fed ++ bs) + (g.bad (c.derived.fed ++ bs)).toNat ≤ 1
  | _ => True

/-! ### What a call changes -/

/-- The handler has been told `ns`; the connection is as it was. -/
structure Told (c c' : HttpClient σ) (ns : List Notification) : Prop where
  connect : c'.connect = c.connect
  connectPending : c'.derived.connectPending = c.derived.connectPending
  linked : c'.derived.linked = c.derived.linked
  notified : c'.derived.notified = c.derived.notified ++ ns
  closed : c.closed = true → c'.closed = true

/-- The queues are the same. -/
structure SameQueues (c c' : HttpClient σ) : Prop where
  pool : c'.pool = c.pool
  recvq : c'.recvq = c.recvq
  recvqCount : c'.recvqCount = c.recvqCount
  recvp : c'.recvp = c.recvp

theorem SameQueues.trans {c d e : HttpClient σ} (h : SameQueues c d) (h' : SameQueues d e) :
    SameQueues c e where
  pool := h'.pool.trans h.pool
  recvq := h'.recvq.trans h.recvq
  recvqCount := h'.recvqCount.trans h.recvqCount
  recvp := h'.recvp.trans h.recvp

theorem SameQueues.inv {c c' : HttpClient σ} (h : SameQueues c c') (hinv : c.Inv) : c'.Inv where
  sound := by
    rw [h.pool, h.recvq, h.recvp]
    exact hinv.sound
  filled := by
    rw [h.recvp]
    exact hinv.filled
  recvp_le := by
    rw [h.recvp]
    exact hinv.recvp_le
  count := by
    rw [h.recvqCount, h.recvq]
    exact hinv.count
  chunk_pos := by
    rw [h.pool]
    exact hinv.chunk_pos

/-- No byte has been received or parsed. -/
structure Unfed (c c' : HttpClient σ) : Prop where
  queues : SameQueues c c'
  parser : c'.derived.parser = c.derived.parser
  fed : c'.derived.fed = c.derived.fed

theorem Unfed.refl (c : HttpClient σ) : Unfed c c := ⟨⟨rfl, rfl, rfl, rfl⟩, rfl, rfl⟩

theorem Unfed.trans {c d e : HttpClient σ} (h : Unfed c d) (h' : Unfed d e) : Unfed c e :=
  ⟨h.queues.trans h'.queues, h'.parser.trans h.parser, h'.fed.trans h.fed⟩

theorem Told.refl (c : HttpClient σ) : Told c c [] :=
  ⟨rfl, rfl, rfl, (List.append_nil _).symm, id⟩

theorem Told.trans {c d e : HttpClient σ} {ns ms : List Notification} (h : Told c d ns)
    (h' : Told d e ms) : Told c e (ns ++ ms) where
  connect := h'.connect.trans h.connect
  connectPending := h'.connectPending.trans h.connectPending
  linked := h'.linked.trans h.linked
  notified := by rw [h'.notified, h.notified, List.append_assoc]
  closed := fun hc => h'.closed (h.closed hc)

theorem told_close (c : HttpClient σ) : Told c (close c) [] ∧ Unfed c (close c) := by
  unfold close
  split
  · exact ⟨⟨rfl, rfl, rfl, (List.append_nil _).symm, fun _ => rfl⟩,
      ⟨rfl, rfl, rfl, rfl⟩, rfl, rfl⟩
  · exact ⟨.refl c, .refl c⟩

theorem closed_close {c : HttpClient σ} (h : c.derived.linked = true) :
    (close c).closed = true := by
  rw [close, if_pos h]
  rfl

theorem told_notify (n : Notification) (c : HttpClient σ) :
    Told c (notify handler n c) [n] ∧ Unfed c (notify handler n c) := by
  have hadd : Told c { c with derived :=
      { c.derived with notified := c.derived.notified ++ [n] } } [n] :=
    ⟨rfl, rfl, rfl, rfl, id⟩
  have hunfed : Unfed c { c with derived :=
      { c.derived with notified := c.derived.notified ++ [n] } } :=
    ⟨⟨rfl, rfl, rfl, rfl⟩, rfl, rfl⟩
  simp only [notify]
  split
  · obtain ⟨htold, hunfed'⟩ := told_close { c with derived :=
      { c.derived with notified := c.derived.notified ++ [n] } }
    exact ⟨hadd.trans htold, hunfed.trans hunfed'⟩
  · exact ⟨hadd, hunfed⟩

/-- So many responses and errors. -/
structure Terminals (ns : List Notification) (n : Nat) : Prop where
  all : ∀ x ∈ ns, x.terminal = true
  length : ns.length = n

theorem Terminals.nil : Terminals [] 0 := ⟨fun _ h => absurd h List.not_mem_nil, rfl⟩

theorem Terminals.append {ns ms : List Notification} {n m : Nat} (h : Terminals ns n)
    (h' : Terminals ms m) : Terminals (ns ++ ms) (n + m) where
  all := fun x hx => (List.mem_append.mp hx).elim (h.all x) (h'.all x)
  length := by rw [List.length_append, h.length, h'.length]

theorem Terminals.single {x : Notification} (h : x.terminal = true) : Terminals [x] 1 :=
  ⟨fun _ hy => List.mem_singleton.mp hy ▸ h, rfl⟩

theorem Terminals.countP {ns : List Notification} {n : Nat} (h : Terminals ns n) :
    ns.countP Notification.terminal = n :=
  (List.countP_eq_length.mpr h.all).trans h.length

theorem Terminals.close_not_mem {ns : List Notification} {n : Nat} (h : Terminals ns n) :
    .close ∉ ns := fun hmem => absurd (h.all _ hmem) Bool.false_ne_true

/-- The callbacks of one call of the parser. -/
theorem told_callbacks (cbs : List Callback) (c : HttpClient σ) :
    ∃ ns, Told c (cbs.foldl (callback handler) c) ns ∧
      Unfed c (cbs.foldl (callback handler) c) ∧ Terminals ns (cbs.count .messageComplete) ∧
      (0 < cbs.count .messageComplete → c.derived.linked = true →
        (cbs.foldl (callback handler) c).closed = true) := by
  induction cbs generalizing c with
  | nil => exact ⟨[], .refl c, .refl c, .nil, fun h => absurd h (Nat.lt_irrefl 0)⟩
  | cons cb cbs ih =>
      obtain ⟨ns, htold, hunfed, hterm, hclosed⟩ := ih (callback handler c cb)
      cases cb with
      | messageBegin =>
          rw [List.count_cons_of_ne (by decide)]
          exact ⟨ns, htold, hunfed, hterm, hclosed⟩
      | body bytes =>
          rw [List.count_cons_of_ne (by simp)]
          exact ⟨ns, ⟨htold.connect, htold.connectPending, htold.linked, htold.notified,
            htold.closed⟩, ⟨⟨hunfed.queues.pool, hunfed.queues.recvq, hunfed.queues.recvqCount,
            hunfed.queues.recvp⟩, hunfed.parser, hunfed.fed⟩, hterm, hclosed⟩
      | messageComplete =>
          obtain ⟨htold1, hunfed1⟩ := told_notify handler
            (.response (c.derived.respBody.takeWhile (· ≠ 0))) c
          obtain ⟨htold2, hunfed2⟩ := told_close (notify handler
            (.response (c.derived.respBody.takeWhile (· ≠ 0))) c)
          rw [List.count_cons_self, Nat.add_comm]
          refine ⟨_, (htold1.trans htold2).trans htold, (hunfed1.trans hunfed2).trans hunfed,
            (Terminals.single rfl).append hterm, fun _ hlinked => htold.closed ?_⟩
          exact closed_close (htold1.linked.trans hlinked)

/-- What a call of the parser leaves of the client. -/
structure Called (bs : List UInt8) (c : HttpClient σ) (ns : List Notification) : Prop where
  told : Told c (execute parser handler bs c).2 ns
  queues : SameQueues c (execute parser handler bs c).2
  fed : (execute parser handler bs c).2.derived.fed = c.derived.fed ++ bs
  terminals : Terminals ns
    ((parser.execute c.derived.parser bs).callbacks.count .messageComplete)
  closed : 0 < (parser.execute c.derived.parser bs).callbacks.count .messageComplete →
    c.derived.linked = true → (execute parser handler bs c).2.closed = true

theorem called_execute (bs : List UInt8) (c : HttpClient σ) :
    ∃ ns, Called parser handler bs c ns := by
  obtain ⟨ns, htold, hunfed, hterm, hclosed⟩ := told_callbacks handler
    (parser.execute c.derived.parser bs).callbacks c
  exact ⟨ns, ⟨htold.connect, htold.connectPending, htold.linked, htold.notified, htold.closed⟩,
    ⟨hunfed.queues.pool, hunfed.queues.recvq, hunfed.queues.recvqCount, hunfed.queues.recvp⟩,
    congrArg (· ++ bs) hunfed.fed, hterm, hclosed⟩

theorem parser_execute (bs : List UInt8) (c : HttpClient σ) :
    (execute parser handler bs c).2.derived.parser =
      (parser.execute c.derived.parser bs).parser := rfl

variable {parser handler} {g : Grammar}

theorem onReceiveLoop_short {v : RefMemoryChunk} (vs : List RefMemoryChunk) {c : HttpClient σ}
    (h : (parser.execute c.derived.parser (v.bytes c.pool.mem)).returned ≠ v.count) :
    onReceiveLoop parser handler (v :: vs) c =
      notify handler (.error "parser error")
        (execute parser handler (v.bytes c.pool.mem) c).2 := if_pos h

theorem onReceiveLoop_whole {v : RefMemoryChunk} (vs : List RefMemoryChunk) {c : HttpClient σ}
    (h : (parser.execute c.derived.parser (v.bytes c.pool.mem)).returned = v.count) :
    onReceiveLoop parser handler (v :: vs) c =
      onReceiveLoop parser handler vs (execute parser handler (v.bytes c.pool.mem) c).2 :=
  if_neg (not_not.mpr h)

theorem bytes_ne_nil (m : Bytes) {v : RefMemoryChunk} (h : 0 < v.count) : v.bytes m ≠ [] := by
  intro hnil
  have hlen := length_bytes m v
  rw [hnil] at hlen
  exact absurd hlen (Nat.ne_of_lt h)

/-- What `OnReceive` makes of the chunks it has popped: the parser has got `ys`, or as many of
    these bytes as it took to find them bad. -/
structure Received (parser : HttpParser σ) (g : Grammar) (c c' : HttpClient σ) (ys : List UInt8)
    (ns : List Notification) : Prop where
  queues : SameQueues c c'
  told : Told c c' ns
  parsed : parser.Parsed g c'.derived.fed c'.derived.parser
  responses_eq : g.responses c'.derived.fed = g.responses ys
  bad_eq : g.bad c'.derived.fed = g.bad ys
  terminals : ∃ n, Terminals ns n ∧
    g.responses c.derived.fed + n = g.responses ys + (g.bad ys).toNat
  closed : c.derived.linked = true → g.responses c.derived.fed < g.responses ys → c'.closed = true

theorem received_loop (handler : Handler) (h : parser.Reports g) {data : List RefMemoryChunk}
    (hdata : ∀ v ∈ data, 0 < v.count) (c : HttpClient σ)
    (hfed : parser.Fed c.derived.fed c.derived.parser)
    (hwhole : g.Undivided c.derived.fed (data.map (bytes c.pool.mem))) :
    ∃ ns, Received parser g c (onReceiveLoop parser handler data c)
      (c.derived.fed ++ bytesOf c.pool.mem data) ns := by
  have hgood := h.good hfed
  induction data generalizing c with
  | nil =>
      rw [bytesOf_nil, List.append_nil]
      refine ⟨[], ⟨rfl, rfl, rfl, rfl⟩, .refl c, ⟨fun _ => hfed, fun hbad => ?_⟩, rfl, rfl,
        ⟨0, .nil, ?_⟩, fun _ hlt => absurd hlt (Nat.lt_irrefl _)⟩
      · exact absurd (hgood.symm.trans hbad) Bool.false_ne_true
      · rw [hgood]
        rfl
  | cons v vs ih =>
      obtain ⟨hv, hvs⟩ := List.forall_mem_cons.mp hdata
      obtain ⟨hin, hrest⟩ := hwhole
      have hne := bytes_ne_nil c.pool.mem hv
      have hresp := h.completes _ _ _ hfed hne hin
      have hret := h.returned _ _ _ hfed hne hin
      have hparsed := h.parsed hfed hne hin
      have hassoc : c.derived.fed ++ bytesOf c.pool.mem (v :: vs) =
          c.derived.fed ++ v.bytes c.pool.mem ++ bytesOf c.pool.mem vs := by
        rw [bytesOf_cons, List.append_assoc]
      obtain ⟨ns1, hcalled⟩ := called_execute parser handler (v.bytes c.pool.mem) c
      have hfed1 := hcalled.fed
      have hparser1 := parser_execute parser handler (v.bytes c.pool.mem) c
      have hmem : (execute parser handler (v.bytes c.pool.mem) c).2.pool.mem = c.pool.mem :=
        congrArg MemoryPool.mem hcalled.queues.pool
      obtain ⟨htold1, hqueues1, -, hterm1, hclosed1⟩ := hcalled
      rw [length_bytes] at hret
      rw [hassoc]
      by_cases hall :
        (parser.execute c.derived.parser (v.bytes c.pool.mem)).returned = v.count
      · -- The chunk was parsed; the others follow, whether or not the client is closed by now.
        have hgood1 := hret.mp hall
        rw [onReceiveLoop_whole vs hall]
        generalize (execute parser handler (v.bytes c.pool.mem) c).2 = d at *
        obtain ⟨ns2, hreceived⟩ := ih hvs d
          (by rw [hfed1, hparser1]; exact hparsed.fed hgood1) (by rwa [hfed1, hmem])
          (by rwa [hfed1])
        rw [hfed1, hmem] at hreceived
        obtain ⟨n, hterm2, hsum⟩ := hreceived.terminals
        rw [hfed1] at hsum
        refine ⟨ns1 ++ ns2, hqueues1.trans hreceived.queues, htold1.trans hreceived.told,
          hreceived.parsed, hreceived.responses_eq, hreceived.bad_eq,
          ⟨_, hterm1.append hterm2, by omega⟩, fun hlinked hlt => ?_⟩
        by_cases hzero : 0 < (parser.execute c.derived.parser
            (v.bytes c.pool.mem)).callbacks.count .messageComplete
        · exact hreceived.told.closed (hclosed1 hzero hlinked)
        · refine hreceived.closed (htold1.linked.trans hlinked) ?_
          rw [hfed1]
          omega
      · have hbad : g.bad (c.derived.fed ++ v.bytes c.pool.mem) = true :=
          Bool.not_eq_false _ ▸ fun hb => hall (hret.mpr hb)
        rw [onReceiveLoop_short vs hall]
        obtain ⟨htold2, hunfed2⟩ := told_notify handler (.error "parser error")
          (execute parser handler (v.bytes c.pool.mem) c).2
        have hsilent := h.silent _ (bytesOf c.pool.mem vs) hbad
        have hstill := h.bad_append _ (bytesOf c.pool.mem vs) hbad
        refine ⟨ns1 ++ [.error "parser error"], hqueues1.trans hunfed2.queues,
          htold1.trans htold2, ?_, ?_, ?_,
          ⟨_, hterm1.append (.single rfl), ?_⟩, fun hlinked hlt => ?_⟩
        · rw [hunfed2.fed, hunfed2.parser, hfed1, hparser1]
          exact hparsed
        · rw [hunfed2.fed, hfed1, hsilent]
        · rw [hunfed2.fed, hfed1, hstill, hbad]
        · rw [hsilent, hstill, hresp]
          exact (Nat.add_assoc _ _ _).symm
        · exact htold2.closed (hclosed1 (by omega) hlinked)

theorem Told.countP {c c' : HttpClient σ} {ns : List Notification} (h : Told c c' ns) :
    c'.derived.notified.countP Notification.terminal =
      c.derived.notified.countP Notification.terminal + ns.countP Notification.terminal := by
  rw [h.notified, List.countP_append]

/-- A short return: the responses of the call, and an error behind them. -/
theorem countP_loop_short (handler : Handler) {v : RefMemoryChunk} (vs : List RefMemoryChunk)
    {c : HttpClient σ}
    (h : (parser.execute c.derived.parser (v.bytes c.pool.mem)).returned ≠ v.count) :
    (onReceiveLoop parser handler (v :: vs) c).derived.notified.countP Notification.terminal =
      c.derived.notified.countP Notification.terminal +
        (parser.execute c.derived.parser (v.bytes c.pool.mem)).callbacks.count .messageComplete +
        1 := by
  obtain ⟨ns, hcalled⟩ := called_execute parser handler (v.bytes c.pool.mem) c
  obtain ⟨htold, -⟩ := told_notify handler (.error "parser error")
    (execute parser handler (v.bytes c.pool.mem) c).2
  rw [onReceiveLoop_short vs h, htold.countP, hcalled.told.countP, hcalled.terminals.countP]
  rfl

/-- A parser that takes no byte any more is one more error. -/
theorem failed_loop (handler : Handler) {data : List RefMemoryChunk} (hne : data ≠ [])
    (hdata : ∀ v ∈ data, 0 < v.count) (c : HttpClient σ)
    (hfailed : ∀ bs, bs ≠ [] → (parser.execute c.derived.parser bs).returned ≠ bs.length) :
    c.derived.notified.countP Notification.terminal + 1 ≤
      (onReceiveLoop parser handler data c).derived.notified.countP Notification.terminal := by
  cases data with
  | nil => exact absurd rfl hne
  | cons v vs =>
      have hshort := hfailed _ (bytes_ne_nil c.pool.mem (hdata v List.mem_cons_self))
      rw [length_bytes] at hshort
      rw [countP_loop_short handler vs hshort]
      omega

/-- Where a response that has an `Upgrade` header ends inside a piece, the handler is told of the
    response and of an error. -/
theorem divided_loop (handler : Handler) (h : parser.Reports g) {data : List RefMemoryChunk}
    (hdata : ∀ v ∈ data, 0 < v.count) (c : HttpClient σ)
    (hfed : parser.Fed c.derived.fed c.derived.parser)
    (hnot : ¬ g.Undivided c.derived.fed (data.map (bytes c.pool.mem))) :
    c.derived.notified.countP Notification.terminal + 2 ≤
      (onReceiveLoop parser handler data c).derived.notified.countP Notification.terminal := by
  induction data generalizing c with
  | nil => exact absurd trivial hnot
  | cons v vs ih =>
      obtain ⟨hv, hvs⟩ := List.forall_mem_cons.mp hdata
      have hne := bytes_ne_nil c.pool.mem hv
      by_cases hin : g.UpgradedIn c.derived.fed (v.bytes c.pool.mem)
      · obtain ⟨hshort, hmem⟩ := h.ended _ _ _ hfed hin
        rw [length_bytes] at hshort
        have hpos := List.count_pos_iff.mpr hmem
        rw [countP_loop_short handler vs hshort]
        omega
      · have hrest : ¬ g.Undivided (c.derived.fed ++ v.bytes c.pool.mem)
            (vs.map (bytes c.pool.mem)) := fun hrest => hnot ⟨hin, hrest⟩
        have hgood : g.bad (c.derived.fed ++ v.bytes c.pool.mem) = false :=
          Bool.eq_false_iff.mpr fun hbad => hrest (h.undivided_of_bad hbad _)
        have hall := (h.returned _ _ _ hfed hne hin).mpr hgood
        have hfed1 := (h.parsed hfed hne hin).fed hgood
        obtain ⟨ns, hcalled⟩ := called_execute parser handler (v.bytes c.pool.mem) c
        have hmem : (execute parser handler (v.bytes c.pool.mem) c).2.pool.mem = c.pool.mem :=
          congrArg MemoryPool.mem hcalled.queues.pool
        rw [length_bytes] at hall
        rw [onReceiveLoop_whole vs hall]
        have hmore := ih hvs (execute parser handler (v.bytes c.pool.mem) c).2
          (by rwa [hcalled.fed]) (by rwa [hcalled.fed, hmem])
        have hold := hcalled.told.countP
        omega

/-- `OnReceive` on the bytes of one pass. -/
theorem onReceive_spec (handler : Handler) (h : parser.Reports g)
    {c : HttpClient σ} (hinv : c.Inv) (hfilled : ∀ v ∈ c.recvq, 0 < v.count)
    (hfed : parser.Fed c.derived.fed c.derived.parser)
    (hwhole : g.Undivided c.derived.fed
      ((c.popReceive c.recvqCount).1.map (bytes c.pool.mem))) :
    (onReceive parser handler c.recvqCount c).Inv ∧
      (onReceive parser handler c.recvqCount c).recvq = [] ∧
      ∃ d ns, Received parser g (c.popReceive c.recvqCount).2 d
        (c.derived.fed ++ c.received) ns ∧
        (onReceive parser handler c.recvqCount c).connect = d.connect ∧
        (onReceive parser handler c.recvqCount c).closed = d.closed ∧
        (onReceive parser handler c.recvqCount c).derived = d.derived := by
  obtain ⟨hbytes, -, hinv1, hmem, hsound, -, -, hderived⟩ :=
    Client.popReceive_spec hinv (Nat.le_of_eq hinv.count_eq)
  obtain ⟨hdata, hqueue⟩ := Client.popReceive_all hinv hfilled
  have hfull : c.received.take c.recvqCount = c.received := by
    rw [hinv.count_eq, List.take_length]
  rw [hfull, ← hmem] at hbytes
  obtain ⟨ns, hreceived⟩ := received_loop handler h hdata
    (c.popReceive c.recvqCount).2 (by rwa [hderived]) (by rwa [hderived, hmem])
  rw [hbytes, hderived] at hreceived
  have hqueues := hreceived.queues
  have hsound' := hsound
  rw [← hqueues.pool, ← hqueues.recvq, ← hqueues.recvp] at hsound'
  exact ⟨(hqueues.inv hinv1).releaseAll hsound', hqueues.recvq.trans hqueue, _, ns, hreceived,
    rfl, rfl, rfl⟩

/-! ### Runs -/

theorem Terminals.once {ns : List Notification} {n : Nat} (h : Terminals ns n) (hle : n ≤ 1) :
    NotifiedOnce ns := by
  refine ⟨by rwa [h.countP], fun before behind heq => ?_⟩
  exact absurd (heq ▸ List.mem_append_right before List.mem_cons_self) h.close_not_mem

theorem Terminals.once_close {ns : List Notification} {n : Nat} (h : Terminals ns n)
    (hle : n ≤ 1) : NotifiedOnce (ns ++ [.close]) := by
  refine ⟨?_, fun before behind heq => ?_⟩
  · rw [List.countP_append, h.countP]
    exact hle
  · -- the only close is the last
    rcases List.append_eq_append_iff.mp heq with ⟨as, rfl, htail⟩ | ⟨bs, hns, htail⟩
    · cases as with
      | nil => exact (List.cons.inj htail).2.symm
      | cons a as => exact absurd (List.cons.inj htail).2 (by simp)
    · cases bs with
      | nil => exact (List.cons.inj htail).2
      | cons b bs =>
          obtain ⟨rfl, -⟩ := List.cons.inj htail
          exact absurd (hns ▸ List.mem_append_right before List.mem_cons_self) h.close_not_mem

/-- The handler has been told nothing, and nothing has been received. -/
structure Untold (parser : HttpParser σ) (g : Grammar)
    (c : HttpClient σ) : Prop where
  inv : c.Inv
  recvq : c.recvq = []
  parsed : parser.Parsed g c.derived.fed c.derived.parser
  connect : c.connect = false
  notified : c.derived.notified = []
  responses_eq : g.responses c.derived.fed = 0
  bad_eq : g.bad c.derived.fed = false

/-- What holds along a run that reads one response at most. -/
structure Fine (parser : HttpParser σ) (g : Grammar)
    (c : HttpClient σ) : Prop where
  inv : c.Inv
  recvq : c.recvq = []
  parsed : parser.Parsed g c.derived.fed c.derived.parser
  connected : c.connect = true → c.derived.connectPending = false ∧
    Terminals c.derived.notified (g.responses c.derived.fed + (g.bad c.derived.fed).toNat)
  reading : c.connect = true → c.closed = false → g.responses c.derived.fed = 0
  pending : c.derived.connectPending = true → Untold parser g c
  once : NotifiedOnce c.derived.notified

theorem Untold.of_quiet {c c' : HttpClient σ} (h : Untold parser g c)
    (htold : Told c c' []) (hunfed : Unfed c c') : Untold parser g c' where
  inv := hunfed.queues.inv h.inv
  recvq := hunfed.queues.recvq.trans h.recvq
  parsed := by
    rw [hunfed.fed, hunfed.parser]
    exact h.parsed
  connect := htold.connect.trans h.connect
  notified := by rw [htold.notified, h.notified, List.append_nil]
  responses_eq := by rw [hunfed.fed, h.responses_eq]
  bad_eq := by rw [hunfed.fed, h.bad_eq]

theorem Fine.of_quiet {c c' : HttpClient σ} (h : Fine parser g c)
    (htold : Told c c' []) (hunfed : Unfed c c') : Fine parser g c' where
  inv := hunfed.queues.inv h.inv
  recvq := hunfed.queues.recvq.trans h.recvq
  parsed := by
    rw [hunfed.fed, hunfed.parser]
    exact h.parsed
  connected := by
    rw [htold.connect, htold.connectPending, htold.notified, List.append_nil, hunfed.fed]
    exact h.connected
  reading := by
    rw [htold.connect, hunfed.fed]
    intro hconnect hclosed
    exact h.reading hconnect (Bool.eq_false_iff.mpr fun hc =>
      absurd (htold.closed hc) (Bool.eq_false_iff.mp hclosed))
  pending := by
    rw [htold.connectPending]
    exact fun hpending => (h.pending hpending).of_quiet htold hunfed
  once := by
    rw [htold.notified, List.append_nil]
    exact h.once

theorem Fine.close {c : HttpClient σ} (h : Fine parser g c) :
    Fine parser g (close c) := h.of_quiet (told_close c).1 (told_close c).2

/-- The handler is told that there will be no connection. -/
theorem Untold.fails {c c' : HttpClient σ} {n : Notification} (h : Untold parser g c)
    (hpending : c.derived.connectPending = false) (hn : n.terminal = true)
    (htold : Told c c' [n]) (hunfed : Unfed c c') : Fine parser g c' where
  inv := hunfed.queues.inv h.inv
  recvq := hunfed.queues.recvq.trans h.recvq
  parsed := by
    rw [hunfed.fed, hunfed.parser]
    exact h.parsed
  connected := by
    rw [htold.connect, h.connect]
    exact nofun
  reading := by
    rw [htold.connect, h.connect]
    exact nofun
  pending := by
    rw [htold.connectPending, hpending]
    exact nofun
  once := by
    rw [htold.notified, h.notified, List.nil_append]
    exact (Terminals.single hn).once (Nat.le_refl 1)

theorem Untold.connectFail {c : HttpClient σ} (h : Untold parser g c)
    (hpending : c.derived.connectPending = false) (reason : String) :
    Fine parser g (connectFail handler reason c) := by
  obtain ⟨htold, hunfed⟩ := told_notify handler (.error reason) c
  obtain ⟨htold', hunfed'⟩ := told_close (notify handler (.error reason) c)
  exact h.fails hpending rfl (htold.trans htold') (hunfed.trans hunfed')

theorem Untold.onConnectSuccess {c : HttpClient σ} (h : Untold parser g c)
    (hpending : c.derived.connectPending = false) (sendError : Bool) :
    Fine parser g (onConnectSuccess sendError c) := by
  have hconnected : Fine parser g { c with connect := true } := by
    refine ⟨SameQueues.inv (c := c) ⟨rfl, rfl, rfl, rfl⟩ h.inv, h.recvq, h.parsed,
      fun _ => ⟨hpending, ?_⟩, fun _ _ => h.responses_eq, fun hp => ?_, ?_⟩
    · show Terminals c.derived.notified (g.responses c.derived.fed + (g.bad c.derived.fed).toNat)
      rw [h.notified, h.responses_eq, h.bad_eq]
      exact .nil
    · exact absurd (hpending.symm.trans hp) Bool.false_ne_true
    · show NotifiedOnce c.derived.notified
      rw [h.notified]
      exact Terminals.nil.once (Nat.zero_le 1)
  simp only [HttpClient.onConnectSuccess]
  split
  · exact hconnected.close
  · exact hconnected

/-- What a pass that reads the bytes `bs` leaves. -/
structure Read (parser : HttpParser σ) (g : Grammar) (c c' : HttpClient σ) (bs : List UInt8) :
    Prop where
  inv : c'.Inv
  recvq : c'.recvq = []
  parsed : parser.Parsed g c'.derived.fed c'.derived.parser
  responses_eq : g.responses c'.derived.fed = g.responses (c.derived.fed ++ bs)
  bad_eq : g.bad c'.derived.fed = g.bad (c.derived.fed ++ bs)
  connect : c'.connect = true
  connectPending : c'.derived.connectPending = c.derived.connectPending
  notified : ∃ ns n, c'.derived.notified = c.derived.notified ++ ns ∧ Terminals ns n ∧
    g.responses c.derived.fed + n =
      g.responses (c.derived.fed ++ bs) + (g.bad (c.derived.fed ++ bs)).toNat
  closed : g.responses c.derived.fed < g.responses (c.derived.fed ++ bs) → c'.closed = true

theorem read_pass (handler : Handler) (h : parser.Reports g) {c : HttpClient σ}
    {bs : List UInt8} (hfine : Fine parser g c) (hlinked : c.derived.linked = true)
    (hreceives : c.Receives bs) (hgood : g.bad c.derived.fed = false)
    (hwhole : g.Undivided c.derived.fed (c.pieces bs)) :
    Read parser g c (onReceive parser handler (c.replenish.transfer bs).recvqCount
      (c.replenish.transfer bs)) bs := by
  obtain ⟨hinv1, hreceived1, -, -, hconnect1, hderived1⟩ := hreceives.spec hfine.inv
  have hnone : c.received = [] := by rw [Client.received, hfine.recvq, bytesOf_nil]
  have hpieces := Client.popReceive_pieces hfine.inv hfine.recvq hreceives
  have hfilled := Client.filled_transfer hfine.inv hfine.recvq bs
  rw [hnone, List.nil_append] at hreceived1
  rw [← hpieces, ← hderived1] at hwhole
  generalize c.replenish.transfer bs = d at *
  obtain ⟨hinv2, hqueue2, e, ns, hrec, hconnect2, hclosed2, hderived2⟩ :=
    onReceive_spec handler h hinv1 hfilled (hderived1 ▸ hfine.parsed.fed hgood) hwhole
  obtain ⟨-, -, -, -, -, -, hpopconnect, hpopderived⟩ :=
    Client.popReceive_spec hinv1 (Nat.le_of_eq hinv1.count_eq)
  obtain ⟨n, hterm, hsum⟩ := hrec.terminals
  have hsame : (d.popReceive d.recvqCount).2.derived = c.derived := hpopderived.trans hderived1
  rw [hsame, hderived1, hreceived1] at hsum
  have hreq := hrec.responses_eq
  have hbeq := hrec.bad_eq
  rw [hderived1, hreceived1] at hreq hbeq
  refine ⟨hinv2, hqueue2, hderived2 ▸ hrec.parsed, by rw [hderived2, hreq],
    by rw [hderived2, hbeq], ?_, ?_, ⟨ns, n, ?_, hterm, hsum⟩, fun hlt => ?_⟩
  · rw [hconnect2, hrec.told.connect, hpopconnect, hconnect1]
  · rw [hderived2, hrec.told.connectPending, hsame]
  · rw [hderived2, hrec.told.notified, hsame]
  · rw [hclosed2]
    refine hrec.closed (hsame ▸ hlinked) ?_
    rwa [hsame, hderived1, hreceived1]

theorem connect_of_receives {c : HttpClient σ} {bs : List UInt8} (h : c.Receives bs) :
    c.connect = true := by
  obtain ⟨hopen, -⟩ := h
  rw [Bool.and_eq_true] at hopen
  exact hopen.1

/-- Reading what is allowed. -/
theorem Read.fine {c c' : HttpClient σ} {bs : List UInt8} (h : Read parser g c c' bs)
    (hfine : Fine parser g c) (hconnect : c.connect = true)
    (hclosed : c.closed = false) (hgood : g.bad c.derived.fed = false)
    (hone : g.responses (c.derived.fed ++ bs) + (g.bad (c.derived.fed ++ bs)).toNat ≤ 1) :
    Fine parser g c' := by
  obtain ⟨hpending, hterm⟩ := hfine.connected hconnect
  obtain ⟨ns, n, hnotified, hterm', hsum⟩ := h.notified
  have hzero := hfine.reading hconnect hclosed
  have hall : Terminals c'.derived.notified
      (g.responses c'.derived.fed + (g.bad c'.derived.fed).toNat) := by
    rw [hnotified, h.responses_eq, h.bad_eq, ← hsum]
    have happ := hterm.append hterm'
    rwa [hgood, Bool.toNat_false, Nat.add_zero] at happ
  refine ⟨h.inv, h.recvq, h.parsed, fun _ => ⟨h.connectPending.trans hpending, hall⟩,
    fun _ hopen => ?_, fun hp => ?_, hall.once ?_⟩
  · rw [h.responses_eq]
    by_contra hne
    exact absurd (hopen.symm.trans (h.closed (by omega))) Bool.false_ne_true
  · exact absurd ((h.connectPending.trans hpending).symm.trans hp) Bool.false_ne_true
  · rwa [h.responses_eq, h.bad_eq]

/-- Reading more than one response, or a response and an error. -/
theorem Read.twice {c c' : HttpClient σ} {bs : List UInt8} (h : Read parser g c c' bs)
    (hfine : Fine parser g c) (hconnect : c.connect = true) (hclosed : c.closed = false)
    (hgood : g.bad c.derived.fed = false)
    (hmany : ¬ g.responses (c.derived.fed ++ bs) + (g.bad (c.derived.fed ++ bs)).toNat ≤ 1) :
    2 ≤ c'.derived.notified.countP Notification.terminal := by
  obtain ⟨-, hterm⟩ := hfine.connected hconnect
  obtain ⟨ns, n, hnotified, hterm', hsum⟩ := h.notified
  have hzero := hfine.reading hconnect hclosed
  rw [hnotified, List.countP_append, hterm.countP, hterm'.countP, hgood]
  omega

/-- Reading anything that is not allowed. -/
theorem twice_read (handler : Handler) (h : parser.Reports g) {c : HttpClient σ}
    {bs : List UInt8} (hfine : Fine parser g c) (hlinked : c.derived.linked = true)
    (hreceives : c.Receives bs)
    (hnot : ¬ (g.bad c.derived.fed = false ∧ g.Undivided c.derived.fed (c.pieces bs) ∧
      g.responses (c.derived.fed ++ bs) + (g.bad (c.derived.fed ++ bs)).toNat ≤ 1)) :
    2 ≤ (onReceive parser handler (c.replenish.transfer bs).recvqCount
      (c.replenish.transfer bs)).derived.notified.countP Notification.terminal := by
  have hconnect := connect_of_receives hreceives
  obtain ⟨hinv1, hreceived1, -, -, -, hderived1⟩ := hreceives.spec hfine.inv
  have hnone : c.received = [] := by rw [Client.received, hfine.recvq, bytesOf_nil]
  have hpieces := Client.popReceive_pieces hfine.inv hfine.recvq hreceives
  have hfilled := Client.filled_transfer hfine.inv hfine.recvq bs
  rw [hnone, List.nil_append] at hreceived1
  obtain ⟨hbytes, -, -, hmem, -, -, -, hderived2⟩ :=
    Client.popReceive_spec hinv1 (Nat.le_of_eq hinv1.count_eq)
  obtain ⟨hdata, -⟩ := Client.popReceive_all hinv1 hfilled
  have hderived := hderived2.trans hderived1
  rcases hgood : g.bad c.derived.fed with _ | _
  · by_cases hwhole : g.Undivided c.derived.fed (c.pieces bs)
    · exact (read_pass handler h hfine hlinked hreceives hgood hwhole).twice hfine hconnect
        hreceives.closed hgood fun hone => hnot ⟨hgood, hwhole, hone⟩
    · -- an upgrade ends the call before its piece ends
      rw [← hpieces, ← hmem, ← hderived] at hwhole
      have htwice := divided_loop handler h hdata _
        (by rw [hderived]; exact hfine.parsed.fed hgood) hwhole
      exact Nat.le_trans (Nat.le_add_left 2 _) htwice
  · -- there has been one error already
    have hnil : ((c.replenish.transfer bs).popReceive
        (c.replenish.transfer bs).recvqCount).1 ≠ [] := by
      intro hnil
      rw [hnil, hreceived1, hinv1.count_eq, hreceived1, List.take_length] at hbytes
      exact hreceives.2.2.1 hbytes.symm
    have honce := failed_loop handler hnil hdata _
      (by rw [hderived]; exact hfine.parsed.failed hgood)
    obtain ⟨-, hterm⟩ := hfine.connected hconnect
    rw [hderived, hterm.countP, hgood] at honce
    exact Nat.le_trans (Nat.add_le_add_right (Nat.le_add_left 1 _) 1) honce

/-- Nothing is read. -/
theorem Fine.rests {c c' : HttpClient σ} (h : Fine parser g c)
    (hrests : Client.Rests c c') (hqueue : c'.recvq = c.recvq) :
    Fine parser g c' where
  inv := hrests.inv
  recvq := hqueue.trans h.recvq
  parsed := hrests.derived ▸ h.parsed
  connected := by
    rw [hrests.connect, hrests.derived]
    exact h.connected
  reading := by
    rw [hrests.connect, hrests.derived]
    intro hconnect hclosed
    exact h.reading hconnect (Bool.eq_false_iff.mpr fun hc =>
      absurd (hrests.closed hc) (Bool.eq_false_iff.mp hclosed))
  pending := by
    rw [hrests.derived]
    intro hpending
    have hu := h.pending hpending
    exact ⟨hrests.inv, hqueue.trans hu.recvq, hrests.derived ▸ hu.parsed,
      hrests.connect.trans hu.connect, hrests.derived ▸ hu.notified,
      hrests.derived ▸ hu.responses_eq, hrests.derived ▸ hu.bad_eq⟩
  once := hrests.derived ▸ h.once

theorem fine_checkIfConnectCompleted {c : HttpClient σ} (h : Fine parser g c)
    (hpending : c.derived.connectPending = true) (failed : Option String) (sendError : Bool) :
    Fine parser g (checkIfConnectCompleted handler failed sendError c) := by
  have hu := h.pending hpending
  have hu' : Untold parser g
      { c with derived := { c.derived with connectPending := false } } :=
    ⟨SameQueues.inv (c := c) ⟨rfl, rfl, rfl, rfl⟩ hu.inv, hu.recvq, hu.parsed, hu.connect,
      hu.notified, hu.responses_eq, hu.bad_eq⟩
  cases failed with
  | some reason => exact hu'.connectFail rfl reason
  | none => exact hu'.onConnectSuccess rfl sendError

theorem fine_writeable {c : HttpClient σ} (h : Fine parser g c)
    (failed : Option String) (sendError : Bool) :
    Fine parser g (onEventIOWriteable handler failed sendError c) := by
  have hcompleted : Fine parser g (if c.derived.connectPending then
      checkIfConnectCompleted handler failed sendError c else c) := by
    split
    · rename_i hpending
      exact fine_checkIfConnectCompleted h hpending failed sendError
    · exact h
  have hrest : ∀ d : HttpClient σ, Fine parser g d →
      Fine parser g (if d.connect && sendError then HttpClient.close d else d) := by
    intro d hd
    split
    · exact hd.close
    · exact hd
  exact hrest _ hcompleted

theorem fine_finalize {c : HttpClient σ} (h : Fine parser g c) :
    Fine parser g (step parser handler c .finalize) := by
  simp only [step]
  split
  · have hunlink : ∀ d : HttpClient σ, Fine parser g d → Fine parser g
        { d with derived := { d.derived with linked := false } } := fun d hd =>
      ⟨SameQueues.inv (c := d) ⟨rfl, rfl, rfl, rfl⟩ hd.inv, hd.recvq, hd.parsed, hd.connected,
        hd.reading, fun hp => ⟨SameQueues.inv (c := d) ⟨rfl, rfl, rfl, rfl⟩ hd.inv, hd.recvq,
          hd.parsed, (hd.pending hp).connect, (hd.pending hp).notified,
          (hd.pending hp).responses_eq, (hd.pending hp).bad_eq⟩, hd.once⟩
    apply hunlink
    simp only [onEventIOClose]
    split
    · rename_i hconnect
      obtain ⟨hpending, hterm⟩ := h.connected hconnect
      have hle : g.responses c.derived.fed + (g.bad c.derived.fed).toNat ≤ 1 := by
        have hone := h.once.1
        rwa [hterm.countP] at hone
      obtain ⟨htold, hunfed⟩ := told_notify handler .close { c with connect := false }
      refine ⟨hunfed.queues.inv (SameQueues.inv (c := c) ⟨rfl, rfl, rfl, rfl⟩ h.inv),
        hunfed.queues.recvq.trans h.recvq, ?_, ?_, ?_, ?_, ?_⟩
      · rw [hunfed.fed, hunfed.parser]
        exact h.parsed
      · rw [htold.connect]
        exact nofun
      · rw [htold.connect]
        exact nofun
      · rw [htold.connectPending]
        exact fun hp => absurd (hpending.symm.trans hp) Bool.false_ne_true
      · rw [htold.notified]
        exact hterm.once_close hle
    · exact h
  · exact h

theorem fine_step (handler : Handler) (h : parser.Reports g) {c : HttpClient σ}
    {a : Action} (hfine : Fine parser g c) (ha : ReadsOne g c a) :
    Fine parser g (step parser handler c a) := by
  cases a with
  | writeable failed sendError =>
      simp only [step]
      split
      · exact fine_writeable hfine failed sendError
      · exact hfine
  | finalize => exact fine_finalize hfine
  | pass a =>
      simp only [step]
      split
      · rename_i hlinked
        rcases Client.pass_cases (onReceive parser handler) hfine.inv a with
          ⟨bs, rfl, hreceives, hpass⟩ | ⟨hnot, hrests⟩
        · obtain ⟨hgood, hwhole, hone⟩ := ha hlinked hreceives
          rw [hpass]
          exact (read_pass handler h hfine hlinked hreceives hgood hwhole).fine hfine
            (connect_of_receives hreceives) hreceives.closed hgood hone
        · exact hfine.rests hrests (Client.recvq_pass _ hnot)
      · exact hfine

theorem twice_step (handler : Handler) (h : parser.Reports g) {c : HttpClient σ}
    {a : Action} (hfine : Fine parser g c) (ha : ¬ ReadsOne g c a) :
    2 ≤ (step parser handler c a).derived.notified.countP Notification.terminal := by
  cases a with
  | writeable failed sendError => exact absurd trivial ha
  | finalize => exact absurd trivial ha
  | pass a =>
      cases a with
      | again | eof | error | close => exact absurd trivial ha
      | bytes bs =>
          simp only [ReadsOne, Classical.not_imp] at ha
          obtain ⟨hlinked, hreceives, hnot⟩ := ha
          rcases Client.pass_cases (onReceive parser handler) hfine.inv (.bytes bs) with
            ⟨bs', heq, -, hpass⟩ | ⟨hno, -⟩
          · cases heq
            rw [step, if_pos hlinked, hpass]
            exact twice_read handler h hfine hlinked hreceives hnot
          · exact absurd hreceives (hno bs rfl)

/-! ### What the handler has been told stays told -/

/-- The queues are kept, and the handler may have been told more. -/
structure Grows (c c' : HttpClient σ) : Prop where
  inv : c.Inv → c'.Inv
  notified : c.derived.notified <+: c'.derived.notified

theorem Grows.refl (c : HttpClient σ) : Grows c c := ⟨id, List.prefix_rfl⟩

theorem Grows.trans {c d e : HttpClient σ} (h : Grows c d) (h' : Grows d e) : Grows c e :=
  ⟨fun hinv => h'.inv (h.inv hinv), h.notified.trans h'.notified⟩

theorem Grows.of_eq {c c' : HttpClient σ} (hqueues : SameQueues c c')
    (h : c'.derived.notified = c.derived.notified) : Grows c c' :=
  ⟨hqueues.inv, h ▸ List.prefix_rfl⟩

theorem grows_close (c : HttpClient σ) : Grows c (close c) := by
  obtain ⟨htold, hunfed⟩ := told_close c
  exact ⟨hunfed.queues.inv, ⟨[], htold.notified.symm⟩⟩

theorem grows_notify (n : Notification) (c : HttpClient σ) : Grows c (notify handler n c) := by
  obtain ⟨htold, hunfed⟩ := told_notify handler n c
  exact ⟨hunfed.queues.inv, ⟨[n], htold.notified.symm⟩⟩

/-- The queues are the same, and the handler may have been told more. -/
theorem prefix_loop (parser : HttpParser σ) (handler : Handler) (data : List RefMemoryChunk)
    (c : HttpClient σ) : SameQueues c (onReceiveLoop parser handler data c) ∧
      c.derived.notified <+: (onReceiveLoop parser handler data c).derived.notified := by
  induction data generalizing c with
  | nil => exact ⟨⟨rfl, rfl, rfl, rfl⟩, List.prefix_rfl⟩
  | cons v vs ih =>
      obtain ⟨ns, hcalled⟩ := called_execute parser handler (v.bytes c.pool.mem) c
      have hcalls : c.derived.notified <+:
          (execute parser handler (v.bytes c.pool.mem) c).2.derived.notified :=
        ⟨ns, hcalled.told.notified.symm⟩
      by_cases hall :
        (parser.execute c.derived.parser (v.bytes c.pool.mem)).returned = v.count
      · obtain ⟨hrest, hmore⟩ := ih (execute parser handler (v.bytes c.pool.mem) c).2
        rw [onReceiveLoop_whole vs hall]
        exact ⟨hcalled.queues.trans hrest, hcalls.trans hmore⟩
      · obtain ⟨htold, hunfed⟩ := told_notify handler (.error "parser error")
          (execute parser handler (v.bytes c.pool.mem) c).2
        rw [onReceiveLoop_short vs hall]
        exact ⟨hcalled.queues.trans hunfed.queues, hcalls.trans ⟨_, htold.notified.symm⟩⟩

theorem grows_onReceive (parser : HttpParser σ) (handler : Handler) {c : HttpClient σ}
    (hinv : c.Inv) : Grows c (onReceive parser handler c.recvqCount c) := by
  obtain ⟨-, -, hinv1, -, hsound, -, -, hderived⟩ :=
    Client.popReceive_spec hinv (Nat.le_of_eq hinv.count_eq)
  obtain ⟨hqueues, hprefix⟩ := prefix_loop parser handler (c.popReceive c.recvqCount).1
    (c.popReceive c.recvqCount).2
  rw [hderived] at hprefix
  rw [← hqueues.pool, ← hqueues.recvq, ← hqueues.recvp] at hsound
  exact ⟨fun _ => (hqueues.inv hinv1).releaseAll hsound, hprefix⟩

theorem grows_writeable (failed : Option String) (sendError : Bool) (c : HttpClient σ) :
    Grows c (onEventIOWriteable handler failed sendError c) := by
  have hrest : ∀ d : HttpClient σ, Grows c d →
      Grows c (if d.connect && sendError then HttpClient.close d else d) := by
    intro d hd
    split
    · exact hd.trans (grows_close d)
    · exact hd
  refine hrest _ ?_
  split
  · have hcleared : Grows c { c with derived := { c.derived with connectPending := false } } :=
      .of_eq ⟨rfl, rfl, rfl, rfl⟩ rfl
    cases failed with
    | some reason => exact hcleared.trans ((grows_notify _ _).trans (grows_close _))
    | none =>
        have hconnected : Grows c { c with
            connect := true, derived := { c.derived with connectPending := false } } :=
          .of_eq ⟨rfl, rfl, rfl, rfl⟩ rfl
        simp only [checkIfConnectCompleted, onConnectSuccess]
        split
        · exact hconnected.trans (grows_close _)
        · exact hconnected
  · exact .refl c

theorem grows_step (parser : HttpParser σ) (handler : Handler) {c : HttpClient σ} (hinv : c.Inv)
    (a : Action) : Grows c (step parser handler c a) := by
  cases a with
  | writeable failed sendError =>
      simp only [step]
      split
      · exact grows_writeable failed sendError c
      · exact .refl c
  | pass a =>
      simp only [step]
      split
      · rcases Client.pass_cases (onReceive parser handler) hinv a with
          ⟨bs, rfl, hreceives, hpass⟩ | ⟨-, hrests⟩
        · obtain ⟨hinv1, -, -, -, -, hderived⟩ := hreceives.spec hinv
          have hgrows := grows_onReceive parser handler hinv1
          rw [hpass]
          exact ⟨fun _ => hgrows.inv hinv1, hderived ▸ hgrows.notified⟩
        · exact ⟨fun _ => hrests.inv, hrests.derived ▸ List.prefix_rfl⟩
      · exact .refl c
  | finalize =>
      simp only [step]
      split
      · have hclosed : Grows c (onEventIOClose handler c) := by
          unfold onEventIOClose
          split
          · have hoff : Grows c { c with connect := false } := .of_eq ⟨rfl, rfl, rfl, rfl⟩ rfl
            exact hoff.trans (grows_notify _ _)
          · exact .refl c
        exact hclosed.trans (.of_eq ⟨rfl, rfl, rfl, rfl⟩ rfl)
      · exact .refl c

/-! ### The result -/

theorem fine_sendAsync (handler : Handler) (h : parser.Reports g)
    {mempool : MemoryPool} (hinv : mempool.Inv []) (hchunk : 0 < mempool.chunkLength)
    (sent : Sent) : Fine parser g (sendAsync parser handler mempool sent) := by
  have hfresh : Untold parser g (fresh parser mempool) :=
    ⟨⟨⟨hinv, List.Pairwise.nil, fun _ hv => absurd hv List.not_mem_nil⟩,
      fun _ hv => absurd hv List.not_mem_nil, Nat.zero_le _, rfl, hchunk⟩, rfl, h.parsed_init, rfl,
      rfl, h.responses_nil, h.bad_nil⟩
  have hadded : ∀ pending, Untold parser g { fresh parser mempool with derived :=
      { (fresh parser mempool).derived with linked := true, connectPending := pending } } :=
    fun _ => ⟨SameQueues.inv (c := fresh parser mempool) ⟨rfl, rfl, rfl, rfl⟩ hfresh.inv, rfl,
      h.parsed_init, rfl, rfl, h.responses_nil, h.bad_nil⟩
  cases sent with
  | badUri =>
      obtain ⟨htold, hunfed⟩ := told_notify handler (.error "parser uri fail")
        (fresh parser mempool)
      exact hfresh.fails rfl rfl htold hunfed
  | noHost =>
      obtain ⟨htold, hunfed⟩ := told_notify handler (.error "parser uri fail: no host")
        (fresh parser mempool)
      exact hfresh.fails rfl rfl htold hunfed
  | refused reason => exact (hadded false).connectFail rfl reason
  | inProgress =>
      have hu := hadded true
      exact ⟨hu.inv, hu.recvq, hu.parsed, nofun, nofun, fun _ => hu,
        Terminals.nil.once (Nat.zero_le 1)⟩
  | connected sendError => exact (hadded false).onConnectSuccess rfl sendError

/-- **The handler is told of one response or of one error, in every run that reads one response
    at most, and in no other.** -/
theorem notifiedOnce_iff_readsOne (parser : HttpParser σ) (g : Grammar) (h : parser.Reports g)
    (handler : Handler) (mempool : MemoryPool) (hinv : mempool.Inv [])
    (hchunk : 0 < mempool.chunkLength) (sent : Sent) (as : List Action) :
    NotifiedOnce
        (run (step parser handler) (sendAsync parser handler mempool sent) as).derived.notified ↔
      Along (step parser handler) (ReadsOne g) (sendAsync parser handler mempool sent) as := by
  refine run_iff_along (I := Fine parser g) (Q := fun c => NotifiedOnce c.derived.notified)
    (B := fun c => c.Inv ∧ 2 ≤ c.derived.notified.countP Notification.terminal)
    (fun c a hfine ha => fine_step handler h hfine ha) (fun c hfine => hfine.once)
    (fun c a hfine ha => ⟨(grows_step parser handler hfine.inv a).inv hfine.inv,
      twice_step handler h hfine ha⟩) (fun c a hb => ?_) (fun c hb honce => ?_)
    (fine_sendAsync handler h hinv hchunk sent) as
  · have hgrows := grows_step parser handler hb.1 a
    exact ⟨hgrows.inv hb.1, Nat.le_trans hb.2 hgrows.notified.sublist.countP_le⟩
  · exact absurd (Nat.le_trans hb.2 honce.1) (by decide)

end HttpClient

/-! ### A parser that goes byte by byte -/

/-- The callbacks and the state behind each byte; `none` is a parse error. -/
structure ByteParser (σ : Type) where
  init : σ
  next : σ → UInt8 → Option (List Callback × σ)
  /-- The byte before has ended a response that has an `Upgrade` header. -/
  upgraded : σ → Bool
  completes : ∀ st b cbs st', next st b = some (cbs, st') → upgraded st' = true →
    .messageComplete ∈ cbs

namespace ByteParser

variable {σ : Type} (p : ByteParser σ)

/-- The bytes one after the other, in whatever calls. -/
def scan : Option σ → List UInt8 → List Callback × Option σ
  | st, [] => ([], st)
  | none, _ => ([], none)
  | some st, b :: bs =>
      match p.next st b with
      | none => ([], none)
      | some (cbs, st') =>
          let r := scan (some st') bs
          (cbs ++ r.1, r.2)

/-- One call.  A parser that has met an error does nothing any more. -/
def call : Option σ → List UInt8 → Executed (Option σ)
  | none, _ => ⟨[], 0, none⟩
  | some st, [] => ⟨[], 0, some st⟩
  | some st, b :: bs =>
      match p.next st b with
      | none => ⟨[], 0, none⟩
      | some (cbs, st') =>
          if p.upgraded st' then ⟨cbs, 1, some st'⟩
          else
            let r := call (some st') bs
            ⟨cbs ++ r.callbacks, r.returned + 1, r.parser⟩

def toHttpParser : HttpParser (Option σ) := ⟨some p.init, p.call⟩

def grammar : Grammar where
  responses xs := (p.scan (some p.init) xs).1.count .messageComplete
  bad xs := (p.scan (some p.init) xs).2.isNone
  upgraded xs := (p.scan (some p.init) xs).2.any p.upgraded

theorem scan_none (bs : List UInt8) : p.scan none bs = ([], none) := by
  cases bs with
  | nil => rfl
  | cons b bs => rfl

theorem call_none (bs : List UInt8) : p.call none bs = ⟨[], 0, none⟩ := by
  cases bs with
  | nil => rfl
  | cons b bs => rfl

theorem scan_cons {st st' : σ} {b : UInt8} {cbs : List Callback}
    (h : p.next st b = some (cbs, st')) (bs : List UInt8) :
    p.scan (some st) (b :: bs) =
      (cbs ++ (p.scan (some st') bs).1, (p.scan (some st') bs).2) := by
  rw [scan, h]

theorem scan_append (st : Option σ) (xs ys : List UInt8) :
    p.scan st (xs ++ ys) =
      ((p.scan st xs).1 ++ (p.scan (p.scan st xs).2 ys).1, (p.scan (p.scan st xs).2 ys).2) := by
  induction xs generalizing st with
  | nil => rfl
  | cons b xs ih =>
      cases st with
      | none => rw [scan_none, scan_none, scan_none]; rfl
      | some st =>
          rw [List.cons_append, scan, scan]
          rcases p.next st b with _ | ⟨cbs, st'⟩
          · simp only [scan_none, List.append_nil]
          · simp only [ih, List.append_assoc]

/-- A call is the scan of its bytes where no upgrade ends before the last of them. -/
theorem call_whole {st : σ} {bs : List UInt8}
    (h : ∀ ps qs, bs = ps ++ qs → ps ≠ [] → qs ≠ [] →
      (p.scan (some st) ps).2.any p.upgraded = false) :
    (p.call (some st) bs).callbacks = (p.scan (some st) bs).1 ∧
      (p.call (some st) bs).parser = (p.scan (some st) bs).2 ∧
      ((p.call (some st) bs).returned = bs.length ↔
        (p.scan (some st) bs).2.isNone = false) := by
  induction bs generalizing st with
  | nil => exact ⟨rfl, rfl, fun _ => rfl, fun _ => rfl⟩
  | cons b bs ih =>
      rcases hnext : p.next st b with _ | ⟨cbs, st'⟩
      · rw [call, scan, hnext]
        exact ⟨rfl, rfl, fun hlen => absurd hlen (Nat.succ_ne_zero _).symm, nofun⟩
      · have hlater : ∀ ps qs, bs = ps ++ qs → qs ≠ [] →
            (p.scan (some st') ps).2.any p.upgraded = false := by
          intro ps qs heq hqs
          have hcons := h (b :: ps) qs (congrArg (b :: ·) heq) (List.cons_ne_nil b ps) hqs
          rwa [scan_cons p hnext] at hcons
        rw [scan_cons p hnext, call, hnext]
        by_cases hup : p.upgraded st' = true
        · -- the upgrade ends with the last byte
          have hnil : bs = [] := by
            by_contra hne
            exact absurd (hup.symm.trans (hlater [] bs rfl hne)) (by decide)
          subst hnil
          simp only [if_pos hup, scan, List.append_nil, true_and]
          exact ⟨fun _ => rfl, fun _ => rfl⟩
        · obtain ⟨hcalls, hparser, hlen⟩ := ih fun ps qs heq _ hqs => hlater ps qs heq hqs
          simp only [if_neg hup, hcalls, hparser, List.length_cons, true_and]
          exact Nat.add_right_cancel_iff.trans hlen

/-- Where an upgrade ends before the last byte, the call ends there. -/
theorem call_ended {st : σ} {ps qs : List UInt8} (hps : ps ≠ []) (hqs : qs ≠ [])
    (hup : (p.scan (some st) ps).2.any p.upgraded = true) :
    (p.call (some st) (ps ++ qs)).returned < (ps ++ qs).length ∧
      .messageComplete ∈ (p.call (some st) (ps ++ qs)).callbacks := by
  induction ps generalizing st with
  | nil => exact absurd rfl hps
  | cons b ps ih =>
      rw [scan] at hup
      rw [List.cons_append, call]
      rcases hnext : p.next st b with _ | ⟨cbs, st'⟩
      · rw [hnext] at hup
        exact absurd hup Bool.false_ne_true
      · rw [hnext] at hup
        by_cases hfirst : p.upgraded st' = true
        · simp only [if_pos hfirst]
          refine ⟨?_, p.completes _ _ _ _ hnext hfirst⟩
          have hpos := List.length_pos_iff.mpr hqs
          rw [List.length_cons, List.length_append]
          omega
        · have hne : ps ≠ [] := by
            rintro rfl
            exact hfirst hup
          obtain ⟨hlt, hmem⟩ := ih hne hup
          simp only [if_neg hfirst]
          exact ⟨Nat.succ_lt_succ hlt, List.mem_append_right cbs hmem⟩

theorem upgraded_append {xs : List UInt8} {st : σ} (h : (p.scan (some p.init) xs).2 = some st)
    (ps : List UInt8) :
    p.grammar.upgraded (xs ++ ps) = (p.scan (some st) ps).2.any p.upgraded := by
  show (p.scan _ (xs ++ ps)).2.any p.upgraded = _
  rw [scan_append, h]

theorem call_of_not_upgradedIn {xs bs : List UInt8} {st : σ}
    (h : (p.scan (some p.init) xs).2 = some st) (hin : ¬ p.grammar.UpgradedIn xs bs) :
    (p.call (some st) bs).callbacks = (p.scan (some st) bs).1 ∧
      (p.call (some st) bs).parser = (p.scan (some st) bs).2 ∧
      ((p.call (some st) bs).returned = bs.length ↔
        (p.scan (some st) bs).2.isNone = false) := by
  refine p.call_whole fun ps qs heq hps hqs => Bool.eq_false_iff.mpr fun hup => ?_
  exact hin ⟨ps, qs, heq, hps, hqs, (p.upgraded_append h ps).trans hup⟩

theorem call_of_upgradedIn {xs bs : List UInt8} {st : σ}
    (h : (p.scan (some p.init) xs).2 = some st) (hin : p.grammar.UpgradedIn xs bs) :
    (p.call (some st) bs).returned ≠ bs.length ∧
      .messageComplete ∈ (p.call (some st) bs).callbacks := by
  obtain ⟨ps, qs, rfl, hps, hqs, hup⟩ := hin
  rw [p.upgraded_append h] at hup
  obtain ⟨hlt, hmem⟩ := p.call_ended hps hqs hup
  exact ⟨Nat.ne_of_lt hlt, hmem⟩

theorem fed_toHttpParser {xs : List UInt8} {st : Option σ} (h : p.toHttpParser.Fed xs st) :
    ∃ st', st = some st' ∧ (p.scan (some p.init) xs).2 = some st' := by
  induction h with
  | init => exact ⟨p.init, rfl, rfl⟩
  | @execute xs st bs h ne whole ih =>
      obtain ⟨st', rfl, hscan⟩ := ih
      have hin : ¬ p.grammar.UpgradedIn xs bs := fun hin =>
        (p.call_of_upgradedIn hscan hin).1 whole
      obtain ⟨-, hparser, hlen⟩ := p.call_of_not_upgradedIn hscan hin
      rcases hst : (p.scan (some st') bs).2 with _ | st''
      · have hsome := hlen.mp whole
        rw [hst] at hsome
        exact absurd hsome.symm Bool.false_ne_true
      · rw [scan_append, hscan, hst]
        exact ⟨st'', hparser.trans hst, rfl⟩

/-- Such a parser reports in the way that is relied on. -/
theorem reports : p.toHttpParser.Reports p.grammar where
  responses_nil := rfl
  bad_nil := rfl
  completes := by
    intro xs st bs h ne hin
    obtain ⟨st, rfl, hscan⟩ := p.fed_toHttpParser h
    obtain ⟨hcalls, -⟩ := p.call_of_not_upgradedIn hscan hin
    show (p.scan _ (xs ++ bs)).1.count _ = _ + (p.call (some st) bs).callbacks.count _
    rw [scan_append, hscan, List.count_append, hcalls]
    rfl
  returned := by
    intro xs st bs h ne hin
    obtain ⟨st, rfl, hscan⟩ := p.fed_toHttpParser h
    obtain ⟨-, -, hlen⟩ := p.call_of_not_upgradedIn hscan hin
    show _ ↔ (p.scan _ (xs ++ bs)).2.isNone = false
    rw [scan_append, hscan]
    exact hlen
  failed := by
    intro xs st bs h ne hin hbad more hmore
    obtain ⟨st, rfl, hscan⟩ := p.fed_toHttpParser h
    obtain ⟨-, hparser, -⟩ := p.call_of_not_upgradedIn hscan hin
    replace hbad : (p.scan _ (xs ++ bs)).2.isNone = true := hbad
    rw [scan_append, hscan, Option.isNone_iff_eq_none] at hbad
    show (p.call (p.call (some st) bs).parser more).returned ≠ more.length
    rw [hparser, hbad, call_none]
    exact fun hzero => hmore (List.length_eq_zero_iff.mp hzero.symm)
  ended := by
    intro xs st bs h hin
    obtain ⟨st, rfl, hscan⟩ := p.fed_toHttpParser h
    exact p.call_of_upgradedIn hscan hin
  bad_append := by
    intro xs bs h
    show (p.scan _ (xs ++ bs)).2.isNone = true
    rw [scan_append, Option.isNone_iff_eq_none.mp h, scan_none]
    rfl
  silent := by
    intro xs bs h
    show (p.scan _ (xs ++ bs)).1.count _ = _
    rw [scan_append, Option.isNone_iff_eq_none.mp h, scan_none, List.append_nil]
    rfl
  upgraded := by
    intro xs h
    obtain ⟨st, hst, -⟩ := (Option.any_eq_true p.upgraded _).mp h
    show (p.scan _ xs).2.isNone = false
    rw [hst]
    rfl

end ByteParser

/-- A response without a body. -/
def noContent : List UInt8 := ascii "HTTP/1.1 204 No Content\r\n\r\n"

/-- A response that has an `Upgrade` header. -/
def switching : List UInt8 := ascii "HTTP/1.1 101 Switching Protocols\r\nUpgrade: a\r\n\r\n"

/-- What `http_parser` makes of such responses, one after the other and with CR and LF in front
    of them.  The state is the part of a response that has been read. -/
def nextResponse (st : List UInt8 × Bool) (b : UInt8) :
    Option (List Callback × List UInt8 × Bool) :=
  let read := st.1 ++ [b]
  let begins := if st.1 = [] then [Callback.messageBegin] else []
  if st.1 = [] ∧ (b = 13 ∨ b = 10) then some (begins, [], false)
  else if read = noContent then some (begins ++ [.messageComplete], [], false)
  else if read = switching then some (begins ++ [.messageComplete], [], true)
  else if read.isPrefixOf noContent || read.isPrefixOf switching then
    some (begins, read, false)
  else none

def responseParser : ByteParser (List UInt8 × Bool) where
  init := ([], false)
  next := nextResponse
  upgraded := Prod.snd
  completes := by
    intro st b cbs st' h hup
    simp only [nextResponse] at h
    split at h
    · cases h
      exact absurd hup Bool.false_ne_true
    · split at h
      · cases h
        exact absurd hup Bool.false_ne_true
      · split at h
        · cases h
          exact List.mem_append_right _ List.mem_cons_self
        · split at h
          · cases h
            exact absurd hup Bool.false_ne_true
          · cases h

namespace HttpClient

/-- What the handler, which never closes the client, has been told after a connection in the
    background and then `as`. -/
def toldBehind (as : List Action) : List Notification :=
  (run (step responseParser.toHttpParser fun _ => false)
    (sendAsync responseParser.toHttpParser (fun _ => false) (.emptyPool 1024) .inProgress)
    (.writeable none false :: as)).derived.notified

/-- One response, and the close. -/
theorem notifiedOnce_iff_readsOne_noContent :
    toldBehind [.pass (.bytes noContent), .pass .again, .finalize] = [.response [], .close] ∧
      Along (step responseParser.toHttpParser fun _ => false) (ReadsOne responseParser.grammar)
        (sendAsync responseParser.toHttpParser (fun _ => false) (.emptyPool 1024) .inProgress)
        [.writeable none false, .pass (.bytes noContent), .pass .again, .finalize] := by
  have htold : toldBehind [.pass (.bytes noContent), .pass .again, .finalize] =
      [.response [], .close] := by decide +kernel
  refine ⟨htold, (notifiedOnce_iff_readsOne _ _ responseParser.reports (fun _ => false)
    (.emptyPool 1024) (MemoryPool.emptyPool_inv 1024) (by decide) .inProgress _).mp ?_⟩
  show NotifiedOnce (toldBehind _)
  rw [htold]
  exact (Terminals.single rfl).once_close (Nat.le_refl 1)

/-- Two responses in one read, a byte behind a response, CR and LF behind an upgrade, and bytes
    behind a parse error. -/
theorem not_notifiedOnce_pipelined :
    responseParser.toHttpParser.Reports responseParser.grammar ∧
      (MemoryPool.emptyPool 1024).Inv [] ∧
      toldBehind [.pass (.bytes (noContent ++ noContent)), .finalize] =
        [.response [], .response [], .close] ∧
      toldBehind [.pass (.bytes (noContent ++ [88])), .finalize] =
        [.response [], .error "parser error", .close] ∧
      toldBehind [.pass (.bytes (switching ++ [13, 10])), .finalize] =
        [.response [], .error "parser error", .close] ∧
      toldBehind [.pass (.bytes [88]), .pass (.bytes [88])] =
        [.error "parser error", .error "parser error"] ∧
      ¬ NotifiedOnce [.response [], .response [], .close] ∧
      ¬ NotifiedOnce [.response [], .error "parser error", .close] ∧
      ¬ NotifiedOnce [.error "parser error", .error "parser error"] :=
  ⟨responseParser.reports, MemoryPool.emptyPool_inv 1024,
    by decide +kernel, by decide +kernel, by decide +kernel, by decide +kernel,
    fun h => absurd h.1 (by decide), fun h => absurd h.1 (by decide),
    fun h => absurd h.1 (by decide)⟩

end HttpClient

end Jengine.Http
