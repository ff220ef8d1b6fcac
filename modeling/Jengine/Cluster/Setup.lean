import Jengine.Cluster.Handlers

/-!
# Setup

`BeginSetup` connects to the nodes of the configuration, and its callback is to
be run once: with success when no connector is anonymous any more, or with
failure when all connectors are gone after a rollback.

The callback runs at most once exactly when every linked node has a listener.
A link without one is reported by the callback, but `BeginSetup` goes on, and
the callback runs again when setup is complete.

Setup does not wait on nothing as long as no optional link that is the last one
fails: `OnConnectorAuthFail` takes the connector out and checks for the end of
a rollback only.
-/

namespace Jengine.Cluster.NodeMonitor

open Jengine.Lib

variable {s s' : NodeMonitor} {c : Nat}

/-! ### Once started, always started -/

@[simp] theorem checkIfAllSetup_started (s : NodeMonitor) :
    s.checkIfAllSetup.started = s.started := by
  unfold checkIfAllSetup
  split <;> rfl

@[simp] theorem checkIfAllRollback_started (s : NodeMonitor) :
    s.checkIfAllRollback.started = s.started := by
  unfold checkIfAllRollback
  split <;> rfl

@[simp] theorem checkIfAllCleanup_started (s : NodeMonitor) (quiet : Bool) :
    (s.checkIfAllCleanup quiet).started = s.started := by
  unfold checkIfAllCleanup
  split <;> rfl

theorem refuse_started (s : NodeMonitor) (c : Nat) : (s.refuse c).started = s.started := by
  rw [refuse_eq, checkIfAllRollback_started]
  split <;> rfl

theorem connectLinks_started (s : NodeMonitor) (links : List LinkNodeInfo)
    (results : List ConnectResult) : (s.connectLinks links results).started = s.started := by
  induction links generalizing s results with
  | nil => rfl
  | cons link links ih =>
    have hlink : (s.connectLink link (results.headD .inProgress)).started = s.started := by
      unfold connectLink
      cases results.headD .inProgress with
      | connected => exact (sendMessage_registry _ _ _).same.started
      | inProgress => rfl
      | failed => exact refuse_started _ _
    exact (ih _ results.tail).trans hlink

theorem setupLinks_started (s : NodeMonitor) (results : List ConnectResult) :
    (s.setupLinks results).started = s.started := by
  unfold setupLinks
  rw [checkIfAllSetup_started, connectLinks_started]
  split <;> rfl

theorem finalise_started (s : NodeMonitor) (c : Nat) (quiet : Bool) :
    (s.finalise c quiet).started = s.started := by
  have hleave : (s.leave c).started = s.started := by
    unfold leave
    split <;> rfl
  rw [finalise_eq, checkIfAllRollback_started, checkIfAllCleanup_started]
  split <;> exact hleave

theorem authenticate_started (s : NodeMonitor) (c : Nat) (info : NodeInfo) :
    (s.authenticate c info).started = s.started := by
  rw [authenticate_eq]
  split
  · rfl
  · rw [onNodeUp_eq, checkIfAllSetup_started]
    rfl

/-- `BeginSetup` is called once. -/
theorem step_started (h : s.started = true) (a : Action) : (s.step a).started = true := by
  have heffect := step_effect s a
  generalize s.step a = t at heffect
  cases heffect with
  | quiet hsame => exact hsame.started.trans h
  | setup hnot =>
      rw [h] at hnot
      cases hnot
  | cleanup _ => exact (checkIfAllCleanup_started _ _).trans h
  | accept _ =>
      obtain ⟨es, heq, -⟩ := onListenerAccept_eq s
      rw [heq]
      exact h
  | connected _ _ => exact (sendMessage_registry _ _ _).same.started.trans h
  | refused _ _ => exact (refuse_started _ _).trans h
  | authenticated hsame _ _ _ => exact (authenticate_started _ _ _).trans (hsame.started.trans h)
  | failed hsame _ => exact hsame.started.trans h
  | finalised _ _ => exact (finalise_started _ _ _).trans h
  | stopped => exact (checkIfAllCleanup_started _ _).trans h

/-! ### The callback runs once -/

/-- The callback may still be run. -/
def Active (s : NodeMonitor) : Prop := s.state = .inSetup ∨ s.state = .inRollback

/-- The callback has been run when setup is over, and not before. -/
def Counted (s : NodeMonitor) : Prop :=
  s.setupCalls = 0 ∨ (s.setupCalls = 1 ∧ ¬ s.Active)

/-- No socket is in use. -/
structure Dead (s : NodeMonitor) : Prop where
  listening : s.listening = false
  connect : ∀ c, (s.conns c).connect = false
  pending : ∀ c, (s.conns c).pending = false

theorem SameLinks.dead (hsame : SameLinks s s') (h : Dead s) : Dead s' := by
  constructor
  · rw [hsame.listening]
    exact h.listening
  · intro c
    obtain ⟨q, hq⟩ := hsame.conns c
    rw [hq]
    exact h.connect c
  · intro c
    obtain ⟨q, hq⟩ := hsame.conns c
    rw [hq]
    exact h.pending c

theorem SameLinks.counted (hsame : SameLinks s s') (h : Counted s) : Counted s' := by
  unfold Counted Active at *
  rw [hsame.calls, hsame.state]
  exact h

theorem Counted.calls_of_active (h : Counted s) (hactive : s.Active) : s.setupCalls = 0 := by
  obtain hzero | ⟨-, hnot⟩ := h
  · exact hzero
  · exact absurd hactive hnot

theorem setupCalls_emit (s : NodeMonitor) (e : Event) :
    (s.emit e).setupCalls = s.setupCalls + (if isSetup e then 1 else 0) := by
  simp [setupCalls, emit, List.countP_append, List.countP_singleton]

/-- The callback is run at the end of setup. -/
theorem counted_of_emit {r : Bool} {state : MonitorState} (h : Counted s) (hactive : s.Active)
    (hstate : state ≠ .inSetup ∧ state ≠ .inRollback) :
    Counted { s.emit (.setup r) with state := state } := by
  refine .inr ⟨?_, ?_⟩
  · have hcalls := setupCalls_emit s (.setup r)
    rw [h.calls_of_active hactive] at hcalls
    exact hcalls
  · rintro (heq | heq)
    · exact hstate.1 heq
    · exact hstate.2 heq

theorem checkIfAllSetup_counted (h : Counted s) : Counted s.checkIfAllSetup := by
  unfold checkIfAllSetup
  split
  · rename_i hcond
    exact counted_of_emit h (.inl hcond.1) ⟨by decide, by decide⟩
  · exact h

theorem checkIfAllRollback_counted (h : Counted s) : Counted s.checkIfAllRollback := by
  unfold checkIfAllRollback
  split
  · rename_i hcond
    exact counted_of_emit h (.inr hcond.1) ⟨by decide, by decide⟩
  · exact h

theorem checkIfAllCleanup_counted {quiet : Bool} (h : Counted s) :
    Counted (s.checkIfAllCleanup quiet) := by
  unfold checkIfAllCleanup
  split
  · rename_i hcond
    have hcalls := setupCalls_emit s .cleanup
    obtain hzero | ⟨hone, -⟩ := h
    · exact .inl (hcalls.trans hzero)
    · refine .inr ⟨hcalls.trans hone, ?_⟩
      rintro (heq | heq) <;> cases heq
  · exact h

theorem rollback_counted (h : Counted s) (hstate : s.state = .inSetup) : Counted s.rollback :=
  .inl (h.calls_of_active (.inl hstate))

theorem sendMessage_counted {msg : Message} (h : Counted s) : Counted (s.sendMessage c msg) :=
  (sendMessage_registry s c msg).same.counted h

theorem refuse_counted (h : Counted s) : Counted (s.refuse c) := by
  have hdrop : Counted (s.drop c) := h
  rw [refuse_eq]
  apply checkIfAllRollback_counted
  split
  · rename_i hcond
    exact rollback_counted hdrop hcond.2
  · exact hdrop

theorem finalise_counted {quiet : Bool} (h : Counted s) : Counted (s.finalise c quiet) := by
  have hleave : Counted (s.leave c) := by
    unfold leave
    split
    · rename_i info _
      have hcalls : (onNodeDown { s.setConn c { s.conns c with connect := false } with
          connectors := s.connectors.erase info.id } info).setupCalls = s.setupCalls := by
        simp [setupCalls, onNodeDown, emit, setConn, List.countP_append, List.countP_map,
          Function.comp_def, isSetup]
      unfold Counted
      rw [hcalls]
      exact h
    · exact h
  rw [finalise_eq]
  apply checkIfAllRollback_counted
  apply checkIfAllCleanup_counted
  split
  · rename_i hstate
    exact rollback_counted hleave ((leave_state s c).trans hstate)
  · exact hleave

theorem authenticate_counted (h : Counted s) (info : NodeInfo) :
    Counted (s.authenticate c info) := by
  have hidentify : Counted (s.identify c info) := by
    have hcalls := setupCalls_emit (s.setConn c { s.conns c with info := some info })
      (.authed c info.id)
    unfold Counted identify
    rw [hcalls]
    exact h
  rw [authenticate_eq]
  split
  · have hcalls := setupCalls_emit (s.identify c info) .stopFramework
    unfold Counted
    rw [hcalls]
    exact hidentify
  · have hlink : Counted ((s.identify c info).link c info) := hidentify
    have hcheck := checkIfAllSetup_counted hlink
    rw [onNodeUp_eq]
    unfold Counted setupCalls at *
    simp only [List.countP_append, countP_dump]
    exact hcheck

theorem connectLink_counted (h : Counted s) (link : LinkNodeInfo) (result : ConnectResult) :
    Counted (s.connectLink link result) := by
  unfold connectLink
  cases result with
  | connected => exact sendMessage_counted h
  | inProgress => exact h
  | failed => exact refuse_counted h

/-- The invariant.  A monitor that could not start has run the callback and stays in setup,
    but nothing can happen to it any more. -/
structure Once (cfg : Configure) (s : NodeMonitor) : Prop where
  before : s.started = false → s.config = cfg ∧ s.setupCalls = 0 ∧ s.Dead
  after : s.started = true → s.Counted ∨ (s.setupCalls = 1 ∧ s.Dead)

theorem Once.of_counted {cfg : Configure} (hstarted : s.started = true) (h : Counted s) :
    Once cfg s := by
  constructor
  · intro hnot
    rw [hstarted] at hnot
    cases hnot
  · exact fun _ => .inl h

theorem init_once (cfg : Configure) : Once cfg (init cfg) := by
  constructor
  · exact fun _ => ⟨rfl, rfl, rfl, fun _ => rfl, fun _ => rfl⟩
  · intro hstarted
    cases hstarted

theorem SameLinks.once {cfg : Configure} (hsame : SameLinks s s') (h : Once cfg s) :
    Once cfg s' := by
  constructor
  · rw [hsame.started, hsame.config, hsame.calls]
    intro hnot
    obtain ⟨hcfg, hcalls, hdead⟩ := h.before hnot
    exact ⟨hcfg, hcalls, hsame.dead hdead⟩
  · rw [hsame.started, hsame.calls]
    intro hstarted
    rcases h.after hstarted with hcounted | ⟨hcalls, hdead⟩
    · exact .inl (hsame.counted hcounted)
    · exact .inr ⟨hcalls, hsame.dead hdead⟩

/-- `BeginSetup` with a configuration whose links all have listeners. -/
theorem beginSetup_once {cfg : Configure} (h : Once cfg s) (hnot : s.started = false)
    (hlinks : ∀ link ∈ cfg.fetchLinkNodeList, link.node.hasListener = true)
    (parsed bound : Bool) (results : List ConnectResult) :
    Once cfg (s.beginSetup parsed bound results) := by
  obtain ⟨hcfg, hcalls, hdead⟩ := h.before hnot
  rw [beginSetup_eq]
  split
  · apply Once.of_counted
    · exact setupLinks_started _ _
    · apply checkIfAllSetup_counted
      refine connectLinks_keeps (P := Counted)
        (fun _ link result ht => connectLink_counted ht link result) ?_ _ _
      -- no link is without a listener
      have hany : (s.config.fetchLinkNodeList.any fun link => !link.node.hasListener) = false := by
        rw [hcfg, List.any_eq_false]
        intro link hmem
        rw [hlinks link hmem]
        decide
      split
      · rename_i htrue
        exact absurd (htrue.symm.trans hany) (by decide)
      · exact .inl hcalls
  · constructor
    · intro hfalse
      cases hfalse
    · intro _
      refine .inr ⟨?_, hdead.listening, hdead.connect, hdead.pending⟩
      have hemit := setupCalls_emit { s with started := true, state := .inSetup } (.setup false)
      exact hemit.trans (congrArg (· + 1) hcalls)

theorem cleanup_once {cfg : Configure} {quiet : Bool} (h : Once cfg s) (hstarted : s.started = true) :
    Once cfg (s.cleanup quiet) := by
  apply Once.of_counted
  · exact (checkIfAllCleanup_started _ _).trans hstarted
  · apply checkIfAllCleanup_counted
    have hinactive : ¬ (closeAll { s with state := .inCleanup }).Active := by
      rintro (heq | heq) <;> cases heq
    rcases h.after hstarted with (hzero | ⟨hone, -⟩) | ⟨hone, -⟩
    · exact .inl hzero
    · exact .inr ⟨hone, hinactive⟩
    · exact .inr ⟨hone, hinactive⟩

theorem checkIfAllCleanup_once {cfg : Configure} {quiet : Bool} (h : Once cfg s) :
    Once cfg (s.checkIfAllCleanup quiet) := by
  unfold checkIfAllCleanup
  split
  · have hemit := setupCalls_emit s .cleanup
    have hinactive : ¬ Active { s.emit .cleanup with state := .stop } := by
      rintro (heq | heq) <;> cases heq
    constructor
    · intro hnot
      obtain ⟨hcfg, hcalls, hdead⟩ := h.before hnot
      exact ⟨hcfg, hemit.trans hcalls, hdead.listening, hdead.connect, hdead.pending⟩
    · intro hstarted
      rcases h.after hstarted with (hzero | ⟨hone, -⟩) | ⟨hone, -⟩
      · exact .inl (.inl (hemit.trans hzero))
      · exact .inl (.inr ⟨hemit.trans hone, hinactive⟩)
      · exact .inl (.inr ⟨hemit.trans hone, hinactive⟩)
  · exact h

/-- A socket is in use, so setup has begun and is counted. -/
theorem Once.counted {cfg : Configure} (h : Once cfg s) (hlive : ¬ s.Dead) :
    s.started = true ∧ s.Counted := by
  rcases hstarted : s.started with _ | _
  · exact absurd (h.before hstarted).2.2 hlive
  · rcases h.after hstarted with hcounted | ⟨-, hdead⟩
    · exact ⟨rfl, hcounted⟩
    · exact absurd hdead hlive

theorem step_once {cfg : Configure}
    (hlinks : ∀ link ∈ cfg.fetchLinkNodeList, link.node.hasListener = true) (h : Once cfg s)
    (a : Action) : Once cfg (s.step a) := by
  have heffect := step_effect s a
  have hstart := fun hstarted => step_started (s := s) hstarted a
  generalize s.step a = t at heffect hstart
  cases heffect with
  | quiet hsame => exact hsame.once h
  | setup hnot => exact beginSetup_once h hnot hlinks _ _ _
  | cleanup hstarted => exact cleanup_once h hstarted
  | accept hlistening =>
      obtain ⟨hstarted, hcounted⟩ := h.counted fun hdead => by
        rw [hdead.listening] at hlistening
        cases hlistening
      apply Once.of_counted (hstart hstarted)
      obtain ⟨es, heq, hes⟩ := onListenerAccept_eq s
      rw [heq]
      unfold Counted setupCalls
      rw [List.countP_append, hes]
      exact hcounted
  | @connected c hpending _ =>
      obtain ⟨hstarted, hcounted⟩ := h.counted fun hdead => by
        rw [hdead.pending c] at hpending
        cases hpending
      exact Once.of_counted (hstart hstarted) (sendMessage_counted hcounted)
  | @refused c hpending _ =>
      obtain ⟨hstarted, hcounted⟩ := h.counted fun hdead => by
        rw [hdead.pending c] at hpending
        cases hpending
      exact Once.of_counted (hstart hstarted) (refuse_counted hcounted)
  | @authenticated c t info hsame hconnect _ _ =>
      obtain ⟨hstarted, hcounted⟩ := h.counted fun hdead => by
        rw [hdead.connect c] at hconnect
        cases hconnect
      exact Once.of_counted (hstart hstarted) (authenticate_counted (hsame.counted hcounted) info)
  | @failed _ c t hsame hconnect =>
      obtain ⟨hstarted, hcounted⟩ := h.counted fun hdead => by
        rw [hdead.connect c] at hconnect
        cases hconnect
      exact Once.of_counted (hstart hstarted) (hsame.counted hcounted)
  | @finalised c quiet hconnect _ =>
      obtain ⟨hstarted, hcounted⟩ := h.counted fun hdead => by
        rw [hdead.connect c] at hconnect
        cases hconnect
      exact Once.of_counted (hstart hstarted) (finalise_counted hcounted)
  | stopped => exact checkIfAllCleanup_once h

theorem Once.calls_le_one {cfg : Configure} (h : Once cfg s) : s.setupCalls ≤ 1 := by
  rcases hstarted : s.started with _ | _
  · rw [(h.before hstarted).2.1]
    exact Nat.zero_le 1
  · rcases h.after hstarted with (hzero | ⟨hone, -⟩) | ⟨hone, -⟩
    · rw [hzero]
      exact Nat.zero_le 1
    · exact hone.le
    · exact hone.le

/-- A link without a listener has been reported, and every connection fails at once. -/
structure Reported (s : NodeMonitor) : Prop where
  anonymous : s.anonymous = []
  connectors : s.connectors.entries = []
  calls : (s.setupCalls = 1 ∧ s.state = .inSetup) ∨ (s.setupCalls = 2 ∧ s.state = .stop)

theorem connectLink_reported (h : Reported s) (link : LinkNodeInfo) :
    Reported (s.connectLink link .failed) := by
  let t : NodeMonitor := s.enter link.require
  have hanon : (t.drop s.next).anonymous = [] := by
    show (s.anonymous ++ [s.next]).filter (· ≠ s.next) = []
    rw [h.anonymous]
    simp
  show Reported (t.refuse s.next)
  rw [refuse_eq]
  split
  · -- a required link: setup is rolled back, and the rollback is complete
    rename_i hcond
    have hgone : (t.drop s.next).rollback.anonymous = [] := by
      show (t.drop s.next).anonymous.filter _ = []
      rw [hanon]
      rfl
    have hempty : (t.drop s.next).rollback.connectors.entries = [] := by
      show s.connectors.entries.filter _ = []
      rw [h.connectors]
      rfl
    rw [checkIfAllRollback, if_pos ⟨rfl, hgone, hempty⟩]
    refine ⟨hgone, hempty, .inr ⟨?_, rfl⟩⟩
    rcases h.calls with ⟨hone, -⟩ | ⟨-, hstop⟩
    · exact (setupCalls_emit (t.drop s.next).rollback (.setup false)).trans
        (congrArg (· + 1) hone)
    · exact absurd (hstop.symm.trans hcond.2) (by decide)
  · have hnot : (t.drop s.next).state ≠ .inRollback := by
      show s.state ≠ .inRollback
      rcases h.calls with ⟨-, hstate⟩ | ⟨-, hstate⟩ <;> rw [hstate] <;> decide
    rw [checkIfAllRollback, if_neg fun hcond => hnot hcond.1]
    exact ⟨hanon, h.connectors, h.calls⟩

theorem connectLinks_reported (h : Reported s) (links : List LinkNodeInfo) :
    Reported (s.connectLinks links (links.map fun _ => .failed)) := by
  induction links generalizing s with
  | nil => exact h
  | cons link links ih => exact ih (connectLink_reported h link)

/-- After a link without a listener the callback is run a second time. -/
theorem beginSetup_twice {cfg : Configure} {link : LinkNodeInfo}
    (hmem : link ∈ cfg.fetchLinkNodeList) (hlistener : link.node.hasListener = false) :
    ((init cfg).beginSetup true true
      (cfg.fetchLinkNodeList.map fun _ => .failed)).setupCalls = 2 := by
  rw [beginSetup_eq, if_pos (by simp)]
  unfold setupLinks
  have hany : (cfg.fetchLinkNodeList.any fun link => !link.node.hasListener) = true := by
    rw [List.any_eq_true]
    exact ⟨link, hmem, by rw [hlistener]; rfl⟩
  have hloop := connectLinks_reported
    (s := emit { init cfg with started := true, state := .inSetup
                               listening := cfg.info.hasListener } (.setup false))
    ⟨rfl, rfl, .inl ⟨rfl, rfl⟩⟩ cfg.fetchLinkNodeList
  have hgoal : ∀ {t : NodeMonitor}, Reported t → t.checkIfAllSetup.setupCalls = 2 := by
    intro t ht
    unfold checkIfAllSetup
    rcases ht.calls with ⟨hone, hstate⟩ | ⟨htwo, hstate⟩
    · rw [if_pos ⟨hstate, ht.anonymous⟩]
      exact (setupCalls_emit t (.setup true)).trans (congrArg (· + 1) hone)
    · rw [if_neg fun hcond => by rw [hstate] at hcond; cases hcond.1]
      exact htwo
  have hif : (if cfg.fetchLinkNodeList.any (fun link => !link.node.hasListener) = true then
      emit { init cfg with started := true, state := .inSetup
                           listening := cfg.info.hasListener } (.setup false)
      else { init cfg with started := true, state := .inSetup
                           listening := cfg.info.hasListener }) =
      emit { init cfg with started := true, state := .inSetup
                           listening := cfg.info.hasListener } (.setup false) := if_pos hany
  apply hgoal
  rw [← hif] at hloop
  exact hloop

/-- **The setup callback runs at most once in every run if and only if every linked node has a
    listener.** -/
theorem setup_once_iff (cfg : Configure) :
    (∀ as, (run step (init cfg) as).setupCalls ≤ 1) ↔
      ∀ link ∈ cfg.fetchLinkNodeList, link.node.hasListener = true := by
  constructor
  · intro honce link hmem
    by_contra hnot
    have htwo := beginSetup_twice hmem (Bool.eq_false_iff.mpr hnot)
    have hle := honce [.beginSetup true true (cfg.fetchLinkNodeList.map fun _ => .failed)]
    rw [run_cons, run_nil] at hle
    change ((init cfg).beginSetup true true _).setupCalls ≤ 1 at hle
    omega
  · intro hlinks as
    have hinv := run_keeps (I := Once cfg) (fun s a hs => step_once hlinks hs a) (init_once cfg) as
    exact hinv.calls_le_one

/-- An optional link to node `b`. -/
def optionalB : LinkInfo := ⟨.byName, [98], false⟩

/-- Node `a`, linked to a node `b` that has no listener. -/
def deafCluster : Configure :=
  ⟨nodeA [optionalB], [[7]], [nodeA [optionalB], { nodeB with listener := ⟨[], -1⟩ }]⟩

/-- The link is reported, the connection fails, and setup ends with success. -/
theorem setup_twice_deaf :
    (run step (init deafCluster) [.beginSetup true true [.failed]]).setupCalls = 2 := by decide

/-! ### Setup does not wait on nothing -/

/-- A rollback waits for some connector. -/
def Draining (s : NodeMonitor) : Prop :=
  s.state = .inRollback → s.anonymous ≠ [] ∨ s.connectors.entries ≠ []

/-- Setup waits for an anonymous connector, a rollback for some connector. -/
def Waiting (s : NodeMonitor) : Prop := (s.state = .inSetup → s.anonymous ≠ []) ∧ s.Draining

theorem SameLinks.waiting (hsame : SameLinks s s') (h : Waiting s) : Waiting s' := by
  unfold Waiting Draining
  rw [hsame.state, hsame.anonymous, hsame.connectors]
  exact h

theorem checkIfAllRollback_draining (s : NodeMonitor) : Draining s.checkIfAllRollback := by
  unfold checkIfAllRollback
  split
  · intro hstate
    cases hstate
  · rename_i hcond
    intro hstate
    by_contra hnot
    rw [not_or, not_not, not_not] at hnot
    exact hcond ⟨hstate, hnot⟩

theorem checkIfAllRollback_state (s : NodeMonitor) :
    s.checkIfAllRollback.state = .inSetup → s.checkIfAllRollback = s := by
  unfold checkIfAllRollback
  split
  · intro hstate
    cases hstate
  · exact fun _ => rfl

theorem checkIfAllCleanup_state (s : NodeMonitor) (quiet : Bool) :
    (s.checkIfAllCleanup quiet).state = .inSetup → s.state = .inSetup := by
  unfold checkIfAllCleanup
  split
  · intro hstate
    cases hstate
  · exact id

theorem checkIfAllSetup_waiting (h : Draining s) : Waiting s.checkIfAllSetup := by
  unfold checkIfAllSetup
  split
  · constructor
    · intro hstate
      cases hstate
    · intro hstate
      cases hstate
  · rename_i hcond
    exact ⟨fun hstate hnil => hcond ⟨hstate, hnil⟩, h⟩

theorem checkIfAllCleanup_waiting {quiet : Bool} (h : Waiting s) :
    Waiting (s.checkIfAllCleanup quiet) := by
  unfold checkIfAllCleanup
  split
  · constructor
    · intro hstate
      cases hstate
    · intro hstate
      cases hstate
  · exact h

/-- A connection fails; an optional link leaves another connector to wait for. -/
theorem refuse_waiting
    (hother : (s.conns c).required = false → s.state = .inSetup → ∃ c' ∈ s.anonymous, c' ≠ c) :
    Waiting (s.refuse c) := by
  rw [refuse_eq]
  refine ⟨?_, checkIfAllRollback_draining _⟩
  intro hstate
  have hsame := checkIfAllRollback_state _ hstate
  rw [hsame] at hstate ⊢
  split at hstate
  · cases hstate
  · rename_i hcond
    have hoptional : (s.conns c).required = false :=
      Bool.eq_false_iff.mpr fun hreq => hcond ⟨hreq, hstate⟩
    obtain ⟨c', hmem, hne⟩ := hother hoptional hstate
    rw [if_neg hcond]
    exact List.ne_nil_of_mem (List.mem_filter.mpr ⟨hmem, decide_eq_true hne⟩)

theorem connectLink_draining (s : NodeMonitor) (link : LinkNodeInfo) (result : ConnectResult) :
    Draining (s.connectLink link result) := by
  have hpush : s.anonymous ++ [s.next] ≠ [] := by simp
  unfold connectLink
  cases result with
  | connected =>
      intro _
      left
      show (sendMessage _ _ _).anonymous ≠ []
      rw [sendMessage_eq]
      exact hpush
  | inProgress => exact fun _ => .inl hpush
  | failed =>
      show Draining (refuse _ _)
      rw [refuse_eq]
      exact checkIfAllRollback_draining _

theorem setupLinks_waiting (h : s.state = .inSetup) (results : List ConnectResult) :
    Waiting (s.setupLinks results) := by
  apply checkIfAllSetup_waiting
  refine connectLinks_keeps (P := Draining)
    (fun t link result _ => connectLink_draining t link result) ?_ _ _
  intro hstate
  split at hstate <;> exact absurd (h.symm.trans hstate) (by decide)

theorem authenticate_waiting (h : Waiting s) (info : NodeInfo) :
    Waiting (s.authenticate c info) := by
  rw [authenticate_eq]
  split
  · exact h
  · rename_i hdup
    have hlink : Draining ((s.identify c info).link c info) := by
      intro _
      right
      intro hnil
      have hnone := Table.values_eq_nil.mp hnil info.id
      have hsome : ((s.identify c info).link c info).connectors.lookup info.id = some c := by
        show (Table.emplace s.connectors info.id c).lookup info.id = some c
        rw [Table.lookup_emplace, if_pos rfl, AList.lookup_eq_none.mpr hdup]
        rfl
      rw [hnone] at hsome
      cases hsome
    rw [onNodeUp_eq]
    exact checkIfAllSetup_waiting hlink

theorem finalise_waiting {quiet : Bool} : Waiting (s.finalise c quiet) := by
  rw [finalise_eq]
  refine ⟨?_, checkIfAllRollback_draining _⟩
  intro hstate
  have hsame := checkIfAllRollback_state _ hstate
  rw [hsame] at hstate
  have hbefore := checkIfAllCleanup_state _ _ hstate
  split at hbefore
  · cases hbefore
  · rename_i hnot
    rw [leave_state] at hbefore
    exact absurd hbefore hnot

/-- `BeginSetup` gets to connecting, and an optional link that fails is not the last connector
    that setup waits for. -/
def Expected (s : NodeMonitor) : Action → Prop
  | .beginSetup parsed bound _ => s.started = false →
      parsed = true ∧ (s.config.info.hasListener = true → bound = true)
  | .connectResult c false => (s.conns c).pending = true → (s.conns c).closed = false →
      (s.conns c).required = false → s.state = .inSetup → ∃ c' ∈ s.anonymous, c' ≠ c
  | _ => True

instance (s : NodeMonitor) : ∀ a, Decidable (Expected s a)
  | .beginSetup parsed bound _ => inferInstanceAs (Decidable (s.started = false →
      parsed = true ∧ (s.config.info.hasListener = true → bound = true)))
  | .connectResult c false => inferInstanceAs (Decidable ((s.conns c).pending = true →
      (s.conns c).closed = false → (s.conns c).required = false → s.state = .inSetup →
      ∃ c' ∈ s.anonymous, c' ≠ c))
  | .connectResult _ true | .beginCleanup _ | .accept | .arrive _ _ | .handle _ | .fail _
  | .finalise _ _ | .create _ _ | .destroy _ | .cast _ | .quiet => isTrue trivial

/-- The invariant: before `BeginSetup` nothing can happen. -/
structure Awaiting (s : NodeMonitor) : Prop where
  before : s.started = false → s.Dead
  after : s.started = true → s.Waiting

theorem Awaiting.of_waiting (hstarted : s.started = true) (h : Waiting s) : Awaiting s := by
  constructor
  · intro hnot
    rw [hstarted] at hnot
    cases hnot
  · exact fun _ => h

theorem Awaiting.started (h : Awaiting s) (hlive : ¬ s.Dead) : s.started = true := by
  by_contra hnot
  exact hlive (h.before (Bool.eq_false_iff.mpr hnot))

theorem step_awaiting (h : Awaiting s) {a : Action} (hexpected : Expected s a) :
    Awaiting (s.step a) := by
  have heffect := step_effect s a
  have hstart := fun hstarted => step_started (s := s) hstarted a
  generalize s.step a = t at heffect hstart
  cases heffect with
  | quiet hsame =>
      constructor
      · intro hnot
        exact hsame.dead (h.before (hsame.started.symm.trans hnot))
      · intro hstarted
        exact hsame.waiting (h.after (hsame.started.symm.trans hstarted))
  | @setup parsed bound results hnot =>
      have hgo : (parsed && (!s.config.info.hasListener || bound)) = true := by
        obtain ⟨rfl, hbound⟩ := hexpected hnot
        cases hlistener : s.config.info.hasListener
        · rfl
        · rw [hbound hlistener]
          rfl
      rw [beginSetup_eq, if_pos hgo]
      apply Awaiting.of_waiting
      · exact setupLinks_started _ _
      · exact setupLinks_waiting rfl results
  | cleanup hstarted =>
      apply Awaiting.of_waiting (hstart hstarted)
      apply checkIfAllCleanup_waiting
      constructor
      · intro hstate
        cases hstate
      · intro hstate
        cases hstate
  | accept hlistening =>
      have hstarted := h.started fun hdead => by
        rw [hdead.listening] at hlistening
        cases hlistening
      apply Awaiting.of_waiting (hstart hstarted)
      obtain ⟨es, heq, -⟩ := onListenerAccept_eq s
      have hpush : s.anonymous ++ [s.next] ≠ [] := by simp
      rw [heq]
      exact ⟨fun _ => hpush, fun _ => .inl hpush⟩
  | @connected c hpending _ =>
      have hstarted := h.started fun hdead => by
        rw [hdead.pending c] at hpending
        cases hpending
      apply Awaiting.of_waiting (hstart hstarted)
      have hset : Waiting (s.setConn c { s.conns c with connect := true, pending := false }) :=
        h.after hstarted
      exact (sendMessage_registry _ c (authMessage s.config)).same.waiting hset
  | @refused c hpending hclosed =>
      have hstarted := h.started fun hdead => by
        rw [hdead.pending c] at hpending
        cases hpending
      apply Awaiting.of_waiting (hstart hstarted)
      apply refuse_waiting
      rw [setConn_self]
      exact hexpected hpending hclosed
  | @authenticated c t info hsame hconnect _ _ =>
      have hstarted := h.started fun hdead => by
        rw [hdead.connect c] at hconnect
        cases hconnect
      exact Awaiting.of_waiting (hstart hstarted)
        (authenticate_waiting (hsame.waiting (h.after hstarted)) info)
  | @failed _ c t hsame hconnect =>
      have hstarted := h.started fun hdead => by
        rw [hdead.connect c] at hconnect
        cases hconnect
      exact Awaiting.of_waiting (hstart hstarted) (hsame.waiting (h.after hstarted))
  | @finalised c quiet hconnect _ =>
      have hstarted := h.started fun hdead => by
        rw [hdead.connect c] at hconnect
        cases hconnect
      exact Awaiting.of_waiting (hstart hstarted) finalise_waiting
  | stopped =>
      constructor
      · intro hnot
        rw [checkIfAllCleanup_started] at hnot
        have hdead := h.before hnot
        unfold checkIfAllCleanup
        split
        · exact ⟨hdead.listening, hdead.connect, hdead.pending⟩
        · exact hdead
      · intro hstarted
        rw [checkIfAllCleanup_started] at hstarted
        exact checkIfAllCleanup_waiting (h.after hstarted)

theorem init_awaiting (cfg : Configure) : Awaiting (init cfg) := by
  constructor
  · exact fun _ => ⟨rfl, fun _ => rfl, fun _ => rfl⟩
  · intro hstarted
    cases hstarted

/-- **After `BeginSetup`, setup and rollback wait for some connector, in every run in which no
    optional link fails as the last connector that setup waits for.** -/
theorem run_waiting (cfg : Configure) (as : List Action)
    (h : Along step Expected (init cfg) as) (hstarted : (run step (init cfg) as).started = true) :
    Waiting (run step (init cfg) as) := by
  have hinv := run_invariant (I := Awaiting) (fun s a hs ha => step_awaiting hs ha)
    (init_awaiting cfg) h
  exact hinv.after hstarted

/-- Setup waits for the optional link to node `b` and for a connection that came in; the link
    fails. -/
def patience : List Action :=
  [.beginSetup true true [.inProgress], .accept, .connectResult 0 false]

theorem run_waiting_patience :
    Along step Expected (init (clusterA [optionalB])) patience ∧
      (run step (init (clusterA [optionalB])) patience).state = .inSetup ∧
      Waiting (run step (init (clusterA [optionalB])) patience) :=
  have hexpected : Along step Expected (init (clusterA [optionalB])) patience := by decide
  ⟨hexpected, by decide, run_waiting _ patience hexpected (by decide)⟩

/-- The only link is optional and fails: setup waits on nothing. -/
theorem not_waiting_optional :
    ¬ Waiting (run step (init (clusterA [optionalB]))
      [.beginSetup true true [.inProgress], .connectResult 0 false]) := by
  intro h
  exact h.1 (by decide) (by decide)

end Jengine.Cluster.NodeMonitor
