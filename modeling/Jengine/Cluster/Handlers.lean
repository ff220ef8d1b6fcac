import Jengine.Cluster.NodeMonitor

/-!
# What a handler can do

Every handler of the monitor is described once, as an update of the state; the
invariants are derived from these descriptions and do not look at the handlers
again.  Sending only adds to the output; `handleMessage_cases` says what a
message from a peer can do.
-/

namespace Jengine.Cluster.NodeMonitor

open Jengine.Lib

variable {s s' : NodeMonitor} {c : Nat} {msg : Message}

@[simp] theorem setConn_self (s : NodeMonitor) (c : Nat) (conn : Connector) :
    (s.setConn c conn).conns c = conn := Function.update_self ..

theorem setConn_of_ne {c' : Nat} (h : c' ≠ c) (s : NodeMonitor) (conn : Connector) :
    (s.setConn c conn).conns c' = s.conns c' := Function.update_of_ne h ..

/-! ### Sending -/

/-- What `SendMessage` puts out. -/
def sends (s : NodeMonitor) (c : Nat) (msg : Message) : List Event :=
  if (s.conns c).connect && !(s.conns c).closed then [.send c msg] else []

/-- What `OnNodeUp` sends to the new node. -/
def dump (s : NodeMonitor) (c : Nat) : List Event :=
  s.named.entries.flatMap fun e =>
    if s.isLocalMailbox e.2 then s.sends c (registerMessage e.1 e.2) else []

/-- What a broadcast puts out. -/
def casts (s : NodeMonitor) (msg : Message) : List Event :=
  s.connectors.values.flatMap fun c => s.sends c msg

theorem sendMessage_eq (s : NodeMonitor) (c : Nat) (msg : Message) :
    s.sendMessage c msg = { s with out := s.out ++ s.sends c msg } := by
  unfold sendMessage sends
  split
  · rfl
  · rw [List.append_nil]

/-- A loop that only puts out events puts them out one after the other. -/
theorem foldl_out {α : Type} {g : NodeMonitor → α → NodeMonitor} {f : α → List Event}
    (s : NodeMonitor)
    (hg : ∀ out a, g { s with out := out } a = { s with out := out ++ f a }) (l : List α) :
    l.foldl g s = { s with out := s.out ++ l.flatMap f } := by
  have hloop : ∀ out, l.foldl g { s with out := out } = { s with out := out ++ l.flatMap f } := by
    induction l with
    | nil =>
      intro out
      rw [List.flatMap_nil, List.append_nil]
      rfl
    | cons a l ih =>
      intro out
      rw [List.foldl_cons, hg, ih, List.flatMap_cons, List.append_assoc]
  exact hloop s.out

theorem broadcast_eq (s : NodeMonitor) (msg : Message) :
    s.broadcast msg = { s with out := s.out ++ s.casts msg } := by
  apply foldl_out
  intro out c
  exact sendMessage_eq _ c msg

theorem onNodeUp_eq (s : NodeMonitor) (c : Nat) (info : NodeInfo) :
    s.onNodeUp c info = { s with out := s.out ++ s.dump c ++ [.nodeUp info.id] } := by
  have hloop : (s.named.entries.foldl (fun s' e =>
      if s.isLocalMailbox e.2 then s'.sendMessage c (registerMessage e.1 e.2) else s') s) =
        { s with out := s.out ++ s.dump c } := by
    apply foldl_out
    intro out e
    split
    · exact sendMessage_eq _ c _
    · rw [List.append_nil]
  unfold onNodeUp
  rw [hloop]
  rfl

/-! ### The registry -/

/-- The state with another registry and more output. -/
def withRegistry (s : NodeMonitor) (mailboxes : Table UInt32 Mailbox) (named : Table Name MailboxID)
    (boxes : List Mailbox) (sysCur normalCur : Nat) (es : List Event) : NodeMonitor :=
  { s with mailboxes := mailboxes, named := named, boxes := boxes
           sysCur := sysCur, normalCur := normalCur, out := s.out ++ es }

/-- What `UnRegister` puts out. -/
def farewell (s : NodeMonitor) (name : Name) : List Event :=
  if name = [] then [] else .mailboxDown name :: s.casts (unregisterMessage name)

theorem unRegister_eq (s : NodeMonitor) (mb : Mailbox) :
    s.unRegister mb = s.withRegistry (s.mailboxes.erase mb.mbid.pid)
      (if mb.name = [] then s.named else s.named.erase mb.name) s.boxes s.sysCur s.normalCur
      (s.farewell mb.name) := by
  unfold unRegister farewell withRegistry
  split
  · rw [List.append_nil]
  · simp only [broadcast_eq, emit, casts, sends, List.append_assoc, List.cons_append,
      List.nil_append]

/-- What `Register` puts out. -/
def greeting (s : NodeMonitor) (name : Name) (mbid : MailboxID) : List Event :=
  if name = [] then [] else .mailboxUp name mbid :: s.casts (registerMessage name mbid)

/-- The mailbox that `Register` makes. -/
def newMailbox (s : NodeMonitor) (name : Name) (pid : Nat) : Mailbox :=
  ⟨name, ⟨s.config.info.id, UInt32.ofNat pid⟩⟩

theorem register_eq (s : NodeMonitor) (name : Name) (pid : Nat) :
    s.register name pid = s.withRegistry
      (Table.emplace s.mailboxes (UInt32.ofNat pid) (s.newMailbox name pid))
      (if name = [] then s.named else Table.emplace s.named name (s.newMailbox name pid).mbid)
      (s.boxes ++ [s.newMailbox name pid]) s.sysCur s.normalCur
      (s.greeting name (s.newMailbox name pid).mbid) := by
  unfold register greeting withRegistry
  split
  · rw [List.append_nil]
    rfl
  · simp only [broadcast_eq, onNamedMailboxUp, emit, casts, sends, List.append_assoc,
      List.cons_append, List.nil_append, newMailbox]

/-- The callback of `BeginSetup` is run. -/
def isSetup : Event → Bool
  | .setup _ => true
  | _ => false

/-- How often the setup callback has been run. -/
def setupCalls (s : NodeMonitor) : Nat := s.out.countP isSetup

/-- From `s` to `s'` only the registry has changed, and the setup callback was not run. -/
def Registry (s s' : NodeMonitor) : Prop :=
  ∃ mailboxes named boxes sysCur normalCur es,
    s' = s.withRegistry mailboxes named boxes sysCur normalCur es ∧ es.countP isSetup = 0

namespace Registry

theorem refl (s : NodeMonitor) : Registry s s := by
  refine ⟨s.mailboxes, s.named, s.boxes, s.sysCur, s.normalCur, [], ?_, ?_⟩
  · rw [withRegistry, List.append_nil]
  · rfl

theorem emit {e : Event} (he : isSetup e = false) (named : Table Name MailboxID) :
    Registry s (emit { s with named := named } e) := by
  refine ⟨s.mailboxes, named, s.boxes, s.sysCur, s.normalCur, [e], rfl, ?_⟩
  rw [List.countP_singleton, he]
  rfl

end Registry

/-- What only sends does not run the setup callback. -/
theorem countP_sends (s : NodeMonitor) (c : Nat) (msg : Message) :
    (s.sends c msg).countP isSetup = 0 := by
  unfold sends
  split <;> rfl

theorem countP_flatMap {α : Type} {l : List α} {f : α → List Event}
    (h : ∀ a, (f a).countP isSetup = 0) : (l.flatMap f).countP isSetup = 0 := by
  rw [List.countP_eq_zero]
  intro e he
  obtain ⟨a, _, hmem⟩ := List.mem_flatMap.mp he
  exact List.countP_eq_zero.mp (h a) e hmem

theorem countP_casts (s : NodeMonitor) (msg : Message) : (s.casts msg).countP isSetup = 0 :=
  countP_flatMap fun c => countP_sends s c msg

theorem countP_dump (s : NodeMonitor) (c : Nat) : (s.dump c).countP isSetup = 0 := by
  apply countP_flatMap
  intro e
  split
  · exact countP_sends s c _
  · rfl

theorem unRegister_registry (s : NodeMonitor) (mb : Mailbox) : Registry s (s.unRegister mb) := by
  rw [unRegister_eq]
  refine ⟨_, _, _, _, _, _, rfl, ?_⟩
  unfold farewell
  split
  · rfl
  · exact countP_casts s _

theorem register_registry (s : NodeMonitor) (name : Name) (pid : Nat) :
    Registry s (s.register name pid) := by
  rw [register_eq]
  refine ⟨_, _, _, _, _, _, rfl, ?_⟩
  unfold greeting
  split
  · rfl
  · exact countP_casts s _

theorem create_registry {name : Name} {sys r : Bool} (h : s.create name sys = some (s', r)) :
    Registry s s' := by
  unfold create at h
  split at h
  · cases h
    exact unRegister_registry s _
  · rw [Option.map_eq_some_iff] at h
    obtain ⟨⟨pid, t⟩, hgen, h⟩ := h
    cases h
    obtain ⟨mailboxes, named, boxes, sysCur, normalCur, es, ht, hes⟩ := register_registry t name pid
    refine ⟨mailboxes, named, boxes, sysCur, normalCur, es, ?_, hes⟩
    rw [ht]
    -- a new number only moves a counter
    unfold genPid at hgen
    split at hgen
    · split at hgen
      · cases hgen
        rfl
      · cases hgen
    · cases hgen
      rfl

theorem destroy_registry (s : NodeMonitor) (mb : Mailbox) : Registry s (s.destroy mb) := by
  unfold destroy
  split
  · obtain ⟨mailboxes, named, boxes, sysCur, normalCur, es, hs, hes⟩ := unRegister_registry s mb
    refine ⟨mailboxes, named, s.boxes.erase mb, sysCur, normalCur, es, ?_, hes⟩
    rw [hs]
    rfl
  · exact Registry.refl s

theorem sendMessage_registry (s : NodeMonitor) (c : Nat) (msg : Message) :
    Registry s (s.sendMessage c msg) := by
  rw [sendMessage_eq]
  exact ⟨_, _, _, _, _, _, rfl, countP_sends s c msg⟩

theorem cast_registry (s : NodeMonitor) (msg : Message) : Registry s (s.cast msg) := by
  unfold cast
  split
  · exact Registry.refl s
  · split
    · exact sendMessage_registry s _ msg
    · exact Registry.refl s

/-! ### Messages from a peer -/

/-- The node as which a message authenticates the connector it comes from. -/
def announces (s : NodeMonitor) (c : Nat) (msg : Message) : Option NodeInfo :=
  if !msg.receiver.valid && !(s.conns c).authed && msg.code == internalAuth then
    match readAuth s.config msg.payload with
    | some ((nodeid, true), _) => s.config.findNodeInfoByID nodeid
    | _ => none
  else none

/-- `HandleInternalMessage` once the node is found. -/
def authenticate (s : NodeMonitor) (c : Nat) (info : NodeInfo) : NodeMonitor :=
  onConnectorAuthSuccess
    (emit (s.setConn c { s.conns c with info := some info }) (.authed c info.id)) c info

/-- The connector that has been authenticated, before it changes its container. -/
def identify (s : NodeMonitor) (c : Nat) (info : NodeInfo) : NodeMonitor :=
  emit (s.setConn c { s.conns c with info := some info }) (.authed c info.id)

/-- The connector that has been authenticated is known by its id. -/
def link (s : NodeMonitor) (c : Nat) (info : NodeInfo) : NodeMonitor :=
  { s with connectors := Table.emplace s.connectors info.id c
           anonymous := s.anonymous.filter (· ≠ c) }

theorem authenticate_eq (s : NodeMonitor) (c : Nat) (info : NodeInfo) :
    s.authenticate c info =
      if info.id ∈ s.connectors then (s.identify c info).emit .stopFramework
      else ((s.identify c info).link c info).checkIfAllSetup.onNodeUp c info := rfl

/-- A message to the monitor from a connector that is not authenticated. -/
theorem handleInternalMessage_cases (hvalid : msg.receiver.valid = false)
    (hauth : (s.conns c).authed = false) :
    (∃ info, s.announces c msg = some info ∧
      s.handleInternalMessage c msg = s.authenticate c info) ∨
    (s.announces c msg = none ∧
      (s.handleInternalMessage c msg = s ∨ s.handleInternalMessage c msg = s.close c)) := by
  unfold announces handleInternalMessage
  by_cases hcode : msg.code = internalAuth
  · simp only [hvalid, hauth, hcode, Bool.not_false, Bool.and_self, beq_self_eq_true, if_true]
    rcases readAuth s.config msg.payload with _ | ⟨⟨nodeid, _ | _⟩, rest⟩
    · exact .inr ⟨rfl, .inr rfl⟩
    · exact .inr ⟨rfl, .inr rfl⟩
    · rcases hfind : s.config.findNodeInfoByID nodeid with _ | info
      · exact .inr ⟨hfind, .inr (by simp [hfind])⟩
      · exact .inl ⟨info, hfind, by simp [hfind, authenticate]⟩
  · exact .inr ⟨by simp [hcode], .inl (if_neg hcode)⟩

/-- A message to the monitor from an authenticated connector, or to a mailbox. -/
theorem onConnectorReceiveMessage_cases (s : NodeMonitor) (c : Nat) (msg : Message) :
    Registry s (s.onConnectorReceiveMessage c msg) ∨
      s.onConnectorReceiveMessage c msg = s.close c := by
  unfold onConnectorReceiveMessage
  split
  · split
    · exact .inl (Registry.refl s)
    · split
      · split
        · exact .inr rfl
        · exact .inl (Registry.emit rfl _)
      · split
        · split
          · exact .inr rfl
          · split
            · exact .inl (Registry.emit rfl _)
            · exact .inl (Registry.refl s)
        · exact .inl (Registry.refl s)
  · split
    · exact .inl (Registry.emit rfl s.named)
    · exact .inl (Registry.refl s)

/-- What a message from a peer can do: authenticate the connector, change the registry,
    or get the connector closed. -/
theorem handleMessage_cases (s : NodeMonitor) (c : Nat) (msg : Message) :
    (∃ info, s.announces c msg = some info ∧ s.handleMessage c msg = s.authenticate c info) ∨
      Registry s (s.handleMessage c msg) ∨ s.handleMessage c msg = s.close c := by
  unfold handleMessage
  split
  · rename_i hinternal
    rw [Bool.and_eq_true, Bool.not_eq_true', Bool.not_eq_true'] at hinternal
    obtain ⟨info, hann, heq⟩ | ⟨-, heq | heq⟩ :=
      handleInternalMessage_cases hinternal.1 hinternal.2
    · exact .inl ⟨info, hann, heq⟩
    · exact .inr (.inl (by rw [heq]; exact Registry.refl s))
    · exact .inr (.inr heq)
  · exact .inr (onConnectorReceiveMessage_cases s c msg)

/-! ### Steps -/

/-- The message at the front of a receive queue. -/
def front (s : NodeMonitor) (c : Nat) : Option Message :=
  (frontFrame (s.conns c).recvq).map fun n => Message.ofFrame ((s.conns c).recvq.take n)

/-- The node as which a connector is authenticated when its next frame is handled. -/
def announced (s : NodeMonitor) (c : Nat) : Option NodeInfo :=
  if (s.conns c).connect then (s.front c).bind (s.announces c) else none

/-- A connector with other bytes in its receive queue. -/
def receive (s : NodeMonitor) (c : Nat) (recvq : List UInt8) : NodeMonitor :=
  s.setConn c { s.conns c with recvq := recvq }

/-- The listener and all connectors are closed for cleanup. -/
def cleanup (s : NodeMonitor) (quiet : Bool) : NodeMonitor :=
  (closeAll { s with state := .inCleanup }).checkIfAllCleanup quiet

/-- A connection has failed. -/
def refuse (s : NodeMonitor) (c : Nat) : NodeMonitor := (s.onConnectorAuthFail c).close c

/-- A closed connector is taken out. -/
def finalise (s : NodeMonitor) (c : Nat) (quiet : Bool) : NodeMonitor :=
  onConnectorClose (s.setConn c { s.conns c with connect := false }) c quiet

/-- A connector is closed and taken from the anonymous ones. -/
def drop (s : NodeMonitor) (c : Nat) : NodeMonitor :=
  { s.close c with anonymous := s.anonymous.filter (· ≠ c) }

theorem close_checkIfAllRollback (s : NodeMonitor) (c : Nat) :
    s.checkIfAllRollback.close c = (s.close c).checkIfAllRollback := by
  unfold checkIfAllRollback
  split
  · rename_i hcond
    exact (if_pos hcond).symm
  · rename_i hcond
    exact (if_neg hcond).symm

theorem close_rollback (s : NodeMonitor) (c : Nat) : s.rollback.close c = (s.close c).rollback := by
  have hconns : ∀ c', (s.rollback.close c).conns c' = (s.close c).rollback.conns c' := by
    intro c'
    by_cases heq : c' = c
    · subst heq
      simp only [close, setConn, rollback, closeAll, Function.update_self]
      split <;> rfl
    · simp only [close, setConn, rollback, closeAll, Function.update_of_ne heq]
  have hconnect : ∀ c', ((s.close c).conns c').connect = (s.conns c').connect := by
    intro c'
    by_cases heq : c' = c
    · subst heq
      simp only [close, setConn, Function.update_self]
    · simp only [close, setConn, Function.update_of_ne heq]
  have hanon : s.anonymous.filter (fun c' => ((s.close c).conns c').connect) =
      s.anonymous.filter fun c' => (s.conns c').connect := by
    simp only [hconnect]
  have hkeep : (Table.keep s.connectors fun c' => ((s.close c).conns c').connect) =
      Table.keep s.connectors fun c' => (s.conns c').connect := by
    simp only [hconnect]
  unfold rollback closeAll close setConn at *
  simp only [NodeMonitor.mk.injEq, true_and, and_true]
  exact ⟨funext hconns, hanon.symm, hkeep.symm⟩

/-- The connector is taken out first, and setup is rolled back when it needed it. -/
theorem refuse_eq (s : NodeMonitor) (c : Nat) :
    s.refuse c = (if (s.conns c).required ∧ s.state = .inSetup then (s.drop c).rollback
      else s.drop c).checkIfAllRollback := by
  unfold refuse onConnectorAuthFail
  rw [close_checkIfAllRollback]
  split
  · rw [close_rollback]
    rfl
  · rfl

/-- A connector that is closed for good is taken out of the container it should be in. -/
def leave (s : NodeMonitor) (c : Nat) : NodeMonitor :=
  match (s.conns c).info with
  | some info =>
      onNodeDown { s.setConn c { s.conns c with connect := false } with
                   connectors := s.connectors.erase info.id } info
  | none =>
      { s.setConn c { s.conns c with connect := false } with
        anonymous := s.anonymous.filter (· ≠ c) }

theorem leave_state (s : NodeMonitor) (c : Nat) : (s.leave c).state = s.state := by
  unfold leave
  split <;> rfl

/-- The connector is taken out first, and setup is rolled back in any case. -/
theorem finalise_eq (s : NodeMonitor) (c : Nat) (quiet : Bool) :
    s.finalise c quiet = ((if s.state = .inSetup then (s.leave c).rollback
      else s.leave c).checkIfAllCleanup quiet).checkIfAllRollback := by
  have hleave : (match ((s.setConn c { s.conns c with connect := false }).conns c).info with
      | some info => onNodeDown { s.setConn c { s.conns c with connect := false } with
          connectors := s.connectors.erase info.id } info
      | none => { s.setConn c { s.conns c with connect := false } with
          anonymous := s.anonymous.filter (· ≠ c) }) = s.leave c := by
    simp only [setConn, Function.update_self, leave]
  rw [← leave_state s c, ← hleave]
  rfl

/-- A new connector is anonymous. -/
def enter (s : NodeMonitor) (required : Bool) : NodeMonitor :=
  { s.setConn s.next (Connector.new required) with
    next := s.next + 1, anonymous := s.anonymous ++ [s.next] }

theorem connectLink_eq (s : NodeMonitor) (link : LinkNodeInfo) (result : ConnectResult) :
    s.connectLink link result =
      match result with
      | .connected => (s.enter link.require).onConnect s.next
      | .inProgress => (s.enter link.require).setConn s.next
          { Connector.new link.require with pending := true }
      | .failed => (s.enter link.require).refuse s.next := by
  cases result with
  | connected => rfl
  | inProgress =>
      unfold connectLink
      simp only [setConn_self]
      rfl
  | failed => rfl

/-- What every link keeps, the connecting loop keeps. -/
theorem connectLinks_keeps {P : NodeMonitor → Prop} {s : NodeMonitor}
    (hlink : ∀ s link result, P s → P (s.connectLink link result)) (h : P s)
    (links : List LinkNodeInfo) (results : List ConnectResult) :
    P (s.connectLinks links results) := by
  induction links generalizing s results with
  | nil => exact h
  | cons link links ih => exact ih (hlink s link _ h) results.tail

theorem beginSetup_eq (s : NodeMonitor) (parsed bound : Bool) (results : List ConnectResult) :
    s.beginSetup parsed bound results =
      if parsed && (!s.config.info.hasListener || bound) then
        setupLinks { s with started := true, state := .inSetup
                            listening := s.config.info.hasListener } results
      else emit { s with started := true, state := .inSetup } (.setup false) := by
  unfold beginSetup
  cases parsed
  · rfl
  · cases bound
    · cases hlistener : s.config.info.hasListener <;> simp [hlistener]
    · simp

/-- An accepted connection is connected and anonymous, and its peer is sent the cookies. -/
theorem onListenerAccept_eq (s : NodeMonitor) :
    ∃ es, s.onListenerAccept =
      { s with conns := Function.update s.conns s.next { Connector.new false with connect := true }
               next := s.next + 1, anonymous := s.anonymous ++ [s.next], out := s.out ++ es } ∧
      es.countP isSetup = 0 := by
  unfold onListenerAccept onConnect
  simp only [sendMessage_eq, setConn, Function.update_self, Function.update_idem]
  exact ⟨_, rfl, countP_sends _ _ _⟩

/-- The connectors and containers of `s'` are those of `s`, whatever is registered, queued or
    put out, and the setup callback was not run. -/
structure SameLinks (s s' : NodeMonitor) : Prop where
  config : s'.config = s.config
  state : s'.state = s.state
  started : s'.started = s.started
  listening : s'.listening = s.listening
  conns : ∀ c, ∃ q, s'.conns c = { s.conns c with recvq := q }
  next : s'.next = s.next
  anonymous : s'.anonymous = s.anonymous
  connectors : s'.connectors = s.connectors
  calls : s'.setupCalls = s.setupCalls

/-- What a step can do. -/
inductive Effect (s : NodeMonitor) : Action → NodeMonitor → Prop
  | quiet {a : Action} {t : NodeMonitor} : SameLinks s t → Effect s a t
  | setup {parsed bound : Bool} {results : List ConnectResult} : s.started = false →
      Effect s (.beginSetup parsed bound results) (s.beginSetup parsed bound results)
  | cleanup {quiet : Bool} : s.started = true → Effect s (.beginCleanup quiet) (s.cleanup quiet)
  | accept : s.listening = true → Effect s .accept s.onListenerAccept
  | connected {c : Nat} : (s.conns c).pending = true → (s.conns c).closed = false →
      Effect s (.connectResult c true) (s.onConnect c)
  | refused {c : Nat} : (s.conns c).pending = true → (s.conns c).closed = false →
      Effect s (.connectResult c false)
        ((s.setConn c { s.conns c with pending := false }).refuse c)
  | authenticated {c : Nat} {t : NodeMonitor} {info : NodeInfo} : SameLinks s t →
      (s.conns c).connect = true → (s.conns c).info = none → s.announced c = some info →
      Effect s (.handle c) (t.authenticate c info)
  | failed {a : Action} {c : Nat} {t : NodeMonitor} : SameLinks s t →
      (s.conns c).connect = true → Effect s a (t.close c)
  | finalised {c : Nat} {quiet : Bool} : (s.conns c).connect = true → (s.conns c).closed = true →
      Effect s (.finalise c quiet) (s.finalise c quiet)
  | stopped : Effect s .quiet (s.checkIfAllCleanup true)

theorem Registry.same (h : Registry s s') : SameLinks s s' := by
  obtain ⟨mailboxes, named, boxes, sysCur, normalCur, es, rfl, hes⟩ := h
  refine ⟨rfl, rfl, rfl, rfl, fun c => ⟨(s.conns c).recvq, rfl⟩, rfl, rfl, rfl, ?_⟩
  show (s.out ++ es).countP isSetup = _
  rw [List.countP_append, hes]
  rfl

theorem SameLinks.refl (s : NodeMonitor) : SameLinks s s := (Registry.refl s).same

theorem SameLinks.trans {u : NodeMonitor} (h : SameLinks s s') (h' : SameLinks s' u) :
    SameLinks s u := by
  refine ⟨h'.config.trans h.config, h'.state.trans h.state, h'.started.trans h.started,
    h'.listening.trans h.listening, ?_, h'.next.trans h.next, h'.anonymous.trans h.anonymous,
    h'.connectors.trans h.connectors, h'.calls.trans h.calls⟩
  intro c
  obtain ⟨q, hq⟩ := h.conns c
  obtain ⟨q', hq'⟩ := h'.conns c
  exact ⟨q', by rw [hq', hq]⟩

theorem receive_same (s : NodeMonitor) (c : Nat) (recvq : List UInt8) :
    SameLinks s (s.receive c recvq) := by
  refine ⟨rfl, rfl, rfl, rfl, ?_, rfl, rfl, rfl, rfl⟩
  intro c'
  by_cases h : c' = c
  · subst h
    exact ⟨recvq, Function.update_self ..⟩
  · exact ⟨(s.conns c').recvq, Function.update_of_ne h ..⟩

theorem announces_receive (recvq : List UInt8) (c : Nat) (msg : Message) :
    (s.receive c recvq).announces c msg = s.announces c msg := by
  simp [announces, receive, setConn, Connector.authed]

theorem info_of_announces {info : NodeInfo} (h : s.announces c msg = some info) :
    (s.conns c).info = none := by
  unfold announces at h
  split at h
  · rename_i hcond
    rw [Bool.and_eq_true, Bool.and_eq_true, Bool.not_eq_true', Bool.not_eq_true'] at hcond
    simpa [Connector.authed] using hcond.1.2
  · cases h

theorem handle_effect (hconn : (s.conns c).connect = true) :
    Effect s (.handle c) (s.handleFrame c) := by
  unfold handleFrame
  rcases hframe : frontFrame (s.conns c).recvq with _ | n
  · exact .quiet (SameLinks.refl s)
  · dsimp only
    have hsame := receive_same s c ((s.conns c).recvq.drop n)
    obtain ⟨info, hann, heq⟩ | hreg | heq := handleMessage_cases
      (s.receive c ((s.conns c).recvq.drop n)) c (Message.ofFrame ((s.conns c).recvq.take n))
    · rw [announces_receive] at hann
      have hannounced : s.announced c = some info := by
        simp [announced, hconn, front, hframe, hann]
      have heffect : Effect s (.handle c)
          ((s.receive c ((s.conns c).recvq.drop n)).authenticate c info) :=
        .authenticated hsame hconn (info_of_announces hann) hannounced
      rwa [← heq] at heffect
    · exact .quiet (hsame.trans hreg.same)
    · have heffect : Effect s (.handle c)
          ((s.receive c ((s.conns c).recvq.drop n)).close c) := .failed hsame hconn
      rwa [← heq] at heffect

/-- **What one step does.** -/
theorem step_effect (s : NodeMonitor) (a : Action) : Effect s a (s.step a) := by
  have hstay : Effect s a s := .quiet (SameLinks.refl s)
  cases a with
  | beginSetup parsed bound results =>
      simp only [step]
      split
      · exact hstay
      · rename_i hstarted
        exact .setup (Bool.eq_false_iff.mpr hstarted)
  | beginCleanup quiet =>
      simp only [step]
      split
      · rename_i hstarted
        exact .cleanup hstarted
      · exact hstay
  | accept =>
      simp only [step]
      split
      · rename_i hlistening
        exact .accept hlistening
      · exact hstay
  | connectResult c ok =>
      simp only [step]
      split
      · rename_i hpending
        rw [Bool.and_eq_true, Bool.not_eq_true'] at hpending
        cases ok
        · exact .refused hpending.1 hpending.2
        · exact .connected hpending.1 hpending.2
      · exact hstay
  | arrive c bytes =>
      simp only [step]
      split
      · exact .quiet (receive_same s c _)
      · exact hstay
  | handle c =>
      simp only [step]
      split
      · rename_i hconn
        exact handle_effect hconn
      · exact hstay
  | fail c =>
      simp only [step]
      split
      · rename_i hconn
        exact .failed (SameLinks.refl s) hconn
      · exact hstay
  | finalise c quiet =>
      simp only [step]
      split
      · rename_i hclosed
        rw [Bool.and_eq_true] at hclosed
        exact .finalised hclosed.1 hclosed.2
      · exact hstay
  | create name sys =>
      simp only [step]
      split
      · rcases hcreate : s.create name sys with _ | ⟨s', r⟩
        · exact hstay
        · exact .quiet (create_registry hcreate).same
      · exact hstay
  | destroy mb => exact .quiet (destroy_registry s mb).same
  | cast msg => exact .quiet (cast_registry s msg).same
  | quiet => exact .stopped

/-! ### A small cluster -/

/-- The message by which a node authenticates itself. -/
def authMessage (cfg : Configure) : Message :=
  internalMessage internalAuth
    (toLE 1 cfg.info.id.toNat ++ toLE 2 (UInt16.ofNat cfg.cookies.length).toNat ++
      cfg.cookies.flatMap encodeString)

theorem onConnect_eq (s : NodeMonitor) (c : Nat) :
    s.onConnect c = (s.setConn c { s.conns c with connect := true, pending := false }).sendMessage c
      (authMessage s.config) := rfl

/-- Node `a`, with the given links. -/
def nodeA (links : List LinkInfo) : NodeInfo := ⟨1, [97], [], ⟨[49], 80⟩, links⟩

/-- Node `b`, which is linked to no other. -/
def nodeB : NodeInfo := ⟨2, [98], [], ⟨[49], 81⟩, []⟩

/-- Node `a` in a cluster with node `b`. -/
def clusterA (links : List LinkInfo) : Configure := ⟨nodeA links, [[7]], [nodeA links, nodeB]⟩

/-- Node `b` in a cluster with node `a`. -/
def clusterB : Configure := ⟨nodeB, [[7]], [nodeA [], nodeB]⟩

end Jengine.Cluster.NodeMonitor
