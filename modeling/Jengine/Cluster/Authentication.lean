import Jengine.Cluster.Handlers
import Mathlib.Data.List.Induction

/-!
# Authentication

What a peer sends may reach a mailbox or the table of named mailboxes only over
a connection that has been authenticated.  For the named mailboxes that is so.
A message with a receiver, however, goes to the mailbox before anyone has asked
whether the connection is authenticated: `OnReceive` looks at `authed()` only
for messages without one.
-/

namespace Jengine.Cluster.NodeMonitor

open Jengine.Lib

variable {s s' : NodeMonitor} {c : Nat} {msg : Message}

/-! ### Who has been authenticated -/

/-- An `INTERNAL_AUTH` message with an allowed cookie and the id of a known node was processed
    on the connection. -/
def AuthedBefore (cfg : Configure) (as : List Action) (c : Nat) : Prop :=
  ∃ before after, as = before ++ .handle c :: after ∧
    ((run step (init cfg) before).announced c).isSome = true

theorem AuthedBefore.append {cfg : Configure} {as : List Action} (h : AuthedBefore cfg as c)
    (bs : List Action) : AuthedBefore cfg (as ++ bs) c := by
  obtain ⟨before, after, rfl, hann⟩ := h
  exact ⟨before, after ++ bs, by rw [List.append_assoc, List.cons_append], hann⟩

theorem closeAll_info (s : NodeMonitor) (c : Nat) :
    (s.closeAll.conns c).info = (s.conns c).info := by
  simp only [closeAll]
  split <;> rfl

theorem setConn_info (s : NodeMonitor) {c : Nat} (conn : Connector)
    (hinfo : conn.info = (s.conns c).info) (c' : Nat) :
    ((s.setConn c conn).conns c').info = (s.conns c').info := by
  by_cases heq : c' = c
  · rw [heq, setConn_self, hinfo]
  · rw [setConn_of_ne heq]

theorem checkIfAllSetup_conns (s : NodeMonitor) : s.checkIfAllSetup.conns = s.conns := by
  unfold checkIfAllSetup
  split <;> rfl

theorem checkIfAllRollback_conns (s : NodeMonitor) : s.checkIfAllRollback.conns = s.conns := by
  unfold checkIfAllRollback
  split <;> rfl

theorem checkIfAllCleanup_conns (s : NodeMonitor) (quiet : Bool) :
    (s.checkIfAllCleanup quiet).conns = s.conns := by
  unfold checkIfAllCleanup
  split <;> rfl

theorem refuse_info (s : NodeMonitor) (c c' : Nat) :
    ((s.refuse c).conns c').info = (s.conns c').info := by
  have hdrop : ((s.drop c).conns c').info = (s.conns c').info :=
    setConn_info s { s.conns c with closed := true } rfl c'
  rw [refuse_eq, checkIfAllRollback_conns]
  split
  · exact (closeAll_info _ c').trans hdrop
  · exact hdrop

theorem leave_info (s : NodeMonitor) (c c' : Nat) :
    ((s.leave c).conns c').info = (s.conns c').info := by
  have hset := setConn_info s { s.conns c with connect := false } rfl c'
  unfold leave
  split <;> exact hset

theorem finalise_info (s : NodeMonitor) (c : Nat) (quiet : Bool) (c' : Nat) :
    ((s.finalise c quiet).conns c').info = (s.conns c').info := by
  rw [finalise_eq, checkIfAllRollback_conns, checkIfAllCleanup_conns]
  split
  · exact (closeAll_info _ c').trans (leave_info s c c')
  · exact leave_info s c c'

theorem onConnect_info (s : NodeMonitor) (c c' : Nat) :
    ((s.onConnect c).conns c').info = (s.conns c').info := by
  rw [onConnect_eq, sendMessage_eq]
  exact setConn_info s { s.conns c with connect := true, pending := false } rfl c'

/-- A new connector is not authenticated. -/
theorem connectLink_info (h : (s.conns c).info = none) (link : LinkNodeInfo)
    (result : ConnectResult) : ((s.connectLink link result).conns c).info = none := by
  have henter : ((s.enter link.require).conns c).info = none := by
    by_cases heq : c = s.next
    · rw [heq]
      simp [enter, setConn, Connector.new]
    · simp [enter, setConn, Function.update_of_ne heq, h]
  rw [connectLink_eq]
  cases result with
  | connected => exact (onConnect_info _ _ c).trans henter
  | inProgress =>
      by_cases heq : c = s.next
      · rw [heq, setConn_self]
        rfl
      · rw [setConn_of_ne heq]
        exact henter
  | failed => exact (refuse_info _ _ c).trans henter

theorem beginSetup_info (h : (s.conns c).info = none) (parsed bound : Bool)
    (results : List ConnectResult) :
    ((s.beginSetup parsed bound results).conns c).info = none := by
  rw [beginSetup_eq]
  split
  · unfold setupLinks
    rw [checkIfAllSetup_conns]
    refine connectLinks_keeps (P := fun t => (t.conns c).info = none)
      (fun _ link result ht => connectLink_info ht link result) ?_ _ _
    split <;> exact h
  · exact h

theorem authenticate_info {info : NodeInfo} {c' : Nat} (hne : c' ≠ c) :
    ((s.authenticate c info).conns c').info = (s.conns c').info := by
  have hset : ((s.identify c info).conns c').info = (s.conns c').info := by
    simp [identify, emit, setConn, Function.update_of_ne hne]
  rw [authenticate_eq]
  split
  · exact hset
  · rw [onNodeUp_eq]
    rw [checkIfAllSetup_conns]
    exact hset

/-- A connector is authenticated by a message that announces a node, and in no other way. -/
theorem info_of_step {a : Action} (hnone : (s.conns c).info = none)
    (hsome : ((s.step a).conns c).info ≠ none) :
    a = .handle c ∧ (s.announced c).isSome = true := by
  have heffect := step_effect s a
  generalize s.step a = t at heffect hsome
  have hstay : ∀ {u : NodeMonitor}, SameLinks s u → (u.conns c).info = none := by
    intro u hsame
    obtain ⟨q, hq⟩ := hsame.conns c
    rw [hq]
    exact hnone
  cases heffect with
  | quiet hsame => exact absurd (hstay hsame) hsome
  | setup _ => exact absurd (beginSetup_info hnone _ _ _) hsome
  | cleanup _ =>
      rw [cleanup, checkIfAllCleanup_conns] at hsome
      exact absurd ((closeAll_info _ c).trans hnone) hsome
  | accept _ =>
      obtain ⟨es, heq, -⟩ := onListenerAccept_eq s
      rw [heq] at hsome
      by_cases hnew : c = s.next
      · simp [hnew, Connector.new] at hsome
      · simp [Function.update_of_ne hnew, hnone] at hsome
  | connected _ _ => exact absurd ((onConnect_info s _ c).trans hnone) hsome
  | @refused c' _ _ =>
      have hset := setConn_info s { s.conns c' with pending := false } rfl c
      exact absurd ((refuse_info _ _ c).trans (hset.trans hnone)) hsome
  | @authenticated c' t info hsame _ _ hann =>
      by_cases heq : c = c'
      · subst heq
        exact ⟨rfl, by rw [hann]; rfl⟩
      · exact absurd ((authenticate_info heq).trans (hstay hsame)) hsome
  | @failed _ c' t hsame _ =>
      have hset := setConn_info t { t.conns c' with closed := true } rfl c
      exact absurd (hset.trans (hstay hsame)) hsome
  | finalised _ _ => exact absurd ((finalise_info s _ _ c).trans hnone) hsome
  | stopped =>
      rw [checkIfAllCleanup_conns] at hsome
      exact absurd hnone hsome

/-- Who is authenticated has announced itself before. -/
theorem authedBefore_of_info {cfg : Configure} {as : List Action}
    (h : ((run step (init cfg) as).conns c).info ≠ none) : AuthedBefore cfg as c := by
  induction as using List.reverseRecOn with
  | nil => exact absurd rfl h
  | append_singleton as a ih =>
    rw [run_append, run_cons, run_nil] at h
    by_cases hbefore : ((run step (init cfg) as).conns c).info = none
    · obtain ⟨rfl, hann⟩ := info_of_step hbefore h
      exact ⟨as, [], rfl, hann⟩
    · exact (ih hbefore).append [a]

/-! ### What a message may touch -/

/-- A message reaches a mailbox, or a named mailbox goes up or down. -/
def touches : Event → Bool
  | .deliver _ _ _ => true
  | .mailboxUp _ _ => true
  | .mailboxDown _ => true
  | _ => false

/-- Between `s` and `s'` a message has reached a mailbox, or the named mailboxes were touched. -/
def Touched (s s' : NodeMonitor) : Prop :=
  s'.named ≠ s.named ∨ ∃ es e, s'.out = s.out ++ es ∧ e ∈ es ∧ touches e = true

/-- Neither a mailbox nor the named mailboxes are touched. -/
def Untouched (s s' : NodeMonitor) : Prop :=
  s'.named = s.named ∧ ∃ es, s'.out = s.out ++ es ∧ ∀ e ∈ es, touches e = false

namespace Untouched

theorem not_touched (h : Untouched s s') : ¬ Touched s s' := by
  obtain ⟨hnamed, es, hout, hes⟩ := h
  rintro (hne | ⟨es', e, hout', hmem, htouch⟩)
  · exact hne hnamed
  · rw [hout, List.append_cancel_left_eq] at hout'
    subst hout'
    rw [hes e hmem] at htouch
    cases htouch

theorem of_eq (hnamed : s'.named = s.named) (hout : s'.out = s.out) : Untouched s s' :=
  ⟨hnamed, [], by rw [hout, List.append_nil], fun e hmem => by cases hmem⟩

theorem trans {u : NodeMonitor} (h : Untouched s s') (h' : Untouched s' u) : Untouched s u := by
  obtain ⟨hnamed, es, hout, hes⟩ := h
  obtain ⟨hnamed', es', hout', hes'⟩ := h'
  refine ⟨hnamed'.trans hnamed, es ++ es', by rw [hout', hout, List.append_assoc], ?_⟩
  intro e hmem
  rcases List.mem_append.mp hmem with hmem | hmem
  · exact hes e hmem
  · exact hes' e hmem

theorem emit {e : Event} (he : touches e = false) : Untouched s (s.emit e) := by
  refine ⟨rfl, [e], rfl, ?_⟩
  intro e' hmem
  rw [List.mem_singleton.mp hmem]
  exact he

end Untouched

theorem touches_of_mem_sends {e : Event} (h : e ∈ s.sends c msg) : touches e = false := by
  unfold sends at h
  split at h
  · rw [List.mem_singleton.mp h]
    rfl
  · cases h

theorem onNodeUp_untouched (s : NodeMonitor) (c : Nat) (info : NodeInfo) :
    Untouched s (s.onNodeUp c info) := by
  rw [onNodeUp_eq]
  refine ⟨rfl, s.dump c ++ [.nodeUp info.id], List.append_assoc .., ?_⟩
  intro e hmem
  rcases List.mem_append.mp hmem with hmem | hmem
  · obtain ⟨entry, -, hmem⟩ := List.mem_flatMap.mp hmem
    split at hmem
    · exact touches_of_mem_sends hmem
    · cases hmem
  · rw [List.mem_singleton.mp hmem]
    rfl

theorem checkIfAllSetup_untouched (s : NodeMonitor) : Untouched s s.checkIfAllSetup := by
  unfold checkIfAllSetup
  split
  · exact Untouched.emit (s := s) (e := .setup true) rfl
  · exact Untouched.of_eq rfl rfl

theorem authenticate_untouched (s : NodeMonitor) (c : Nat) (info : NodeInfo) :
    Untouched s (s.authenticate c info) := by
  have hidentify : Untouched s (s.identify c info) :=
    Untouched.emit (s := s) (e := .authed c info.id) rfl
  rw [authenticate_eq]
  split
  · exact hidentify.trans (Untouched.emit rfl)
  · have hlink : Untouched (s.identify c info) ((s.identify c info).link c info) :=
      Untouched.of_eq rfl rfl
    exact ((hidentify.trans hlink).trans (checkIfAllSetup_untouched _)).trans
      (onNodeUp_untouched _ c info)

/-- A frame for a mailbox is handled only when the connection is authenticated. -/
def Gated (s : NodeMonitor) : Action → Prop
  | .handle c => (s.conns c).connect = true → (s.conns c).info = none →
      ∀ msg ∈ s.front c, msg.receiver.valid = true → s.mailboxes.lookup msg.receiver.pid = none
  | _ => True

instance (s : NodeMonitor) (a : Action) : Decidable (Gated s a) := by
  unfold Gated
  split <;> infer_instance

/-- A message from a connection that is not authenticated touches nothing, unless it is for a
    mailbox that is there. -/
theorem handleMessage_untouched (hinfo : (s.conns c).info = none)
    (hmailbox : msg.receiver.valid = true → s.mailboxes.lookup msg.receiver.pid = none) :
    Untouched s (s.handleMessage c msg) := by
  have hauth : (s.conns c).authed = false := by rw [Connector.authed, hinfo]; rfl
  unfold handleMessage
  rcases hvalid : msg.receiver.valid with _ | _
  · rw [hauth]
    obtain ⟨info, -, heq⟩ | ⟨-, heq | heq⟩ := handleInternalMessage_cases (s := s) hvalid hauth
    · rw [heq]
      exact authenticate_untouched s c info
    · rw [heq]
      exact Untouched.of_eq rfl rfl
    · rw [heq]
      exact Untouched.of_eq rfl rfl
  · simp only [onConnectorReceiveMessage, hvalid, hmailbox hvalid]
    exact Untouched.of_eq rfl rfl

theorem handle_untouched (hinfo : (s.conns c).info = none) (hgate : Gated s (.handle c)) :
    Untouched s (s.step (.handle c)) := by
  have hstay : Untouched s s := Untouched.of_eq rfl rfl
  simp only [step]
  split
  · rename_i hconnect
    unfold handleFrame
    rcases hframe : frontFrame (s.conns c).recvq with _ | n
    · exact hstay
    · have hfront : s.front c = some (Message.ofFrame ((s.conns c).recvq.take n)) := by
        rw [front, hframe]
        rfl
      have hreceive : Untouched s (s.receive c ((s.conns c).recvq.drop n)) :=
        Untouched.of_eq rfl rfl
      apply hreceive.trans
      apply handleMessage_untouched
      · rw [receive, setConn_self]
        exact hinfo
      · exact hgate hconnect hinfo _ hfront
  · exact hstay

/-- **In every run in which no message for a mailbox is handled before its connection is
    authenticated, no message touches a mailbox or the named mailboxes before its connection is
    authenticated.** -/
theorem run_authedBefore (cfg : Configure) (as : List Action) (c : Nat)
    (hgate : Along step Gated (init cfg) (as ++ [.handle c]))
    (htouch : Touched (run step (init cfg) as) ((run step (init cfg) as).step (.handle c))) :
    AuthedBefore cfg as c := by
  apply authedBefore_of_info
  intro hinfo
  have hlast := (along_append.mp hgate).2.1
  exact (handle_untouched hinfo hlast).not_touched htouch

/-- Node `b` connects to node `a`, authenticates itself and registers a mailbox named `m`. -/
def registration : List Action :=
  [.beginSetup true true [], .accept, .arrive 0 (authMessage clusterB).toFrame, .handle 0,
    .arrive 0 (registerMessage [109] ⟨2, 10001⟩).toFrame]

theorem run_authedBefore_registration :
    Along step Gated (init (clusterA [])) (registration ++ [.handle 0]) ∧
      Touched (run step (init (clusterA [])) registration)
        ((run step (init (clusterA [])) registration).step (.handle 0)) ∧
      AuthedBefore (clusterA []) registration 0 := by
  have hgate : Along step Gated (init (clusterA [])) (registration ++ [.handle 0]) := by decide
  have htouch : Touched (run step (init (clusterA [])) registration)
      ((run step (init (clusterA [])) registration).step (.handle 0)) := by
    left
    intro heq
    have hlookup := congrArg (AList.lookup [109, 64, 98]) heq
    revert hlookup
    decide
  exact ⟨hgate, htouch, run_authedBefore (clusterA []) registration 0 hgate htouch⟩

/-- A message to a mailbox of node `a`. -/
def knock : Message := ⟨9, .nullID, ⟨1, 10001⟩, 0, []⟩

/-- A peer that does not authenticate itself sends a message to a mailbox. -/
def trespass : List Action :=
  [.beginSetup true true [], .accept, .create [109] false, .arrive 0 knock.toFrame]

/-- The mailbox gets the message. -/
theorem touched_trespass :
    Touched (run step (init (clusterA [])) trespass)
        ((run step (init (clusterA [])) trespass).step (.handle 0)) ∧
      ¬ AuthedBefore (clusterA []) trespass 0 := by
  constructor
  · right
    exact ⟨[.deliver 0 ⟨[109], ⟨1, 10001⟩⟩ knock], _, rfl, List.mem_singleton_self _, rfl⟩
  · rintro ⟨before, after, heq, -⟩
    have hmem : Action.handle 0 ∈ trespass := by
      rw [heq]
      simp
    simp [trespass] at hmem

end Jengine.Cluster.NodeMonitor
