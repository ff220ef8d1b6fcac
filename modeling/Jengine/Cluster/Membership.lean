import Jengine.Cluster.Handlers

/-!
# The two containers of connectors

A connector that is not closed for good is in `anonymous_connectors_` or in
`connectors_`.  `OnConnectorClose` decides by `authed()` from which of them to
take a connector, but `authed()` is set before the insertion into
`connectors_` can fail: a connector that announced the id of another one is
authenticated and still anonymous, and its close takes out the other one.  As
long as no such connector is closed, the containers are as they should be.
-/

namespace Jengine.Cluster.NodeMonitor

open Jengine.Lib

variable {s s' : NodeMonitor} {c : Nat}

/-- The invariant, over the parts of the state it is about. -/
structure PlacedOn (conns : Nat → Connector) (next : Nat) (anonymous : List Nat)
    (connectors : Table UInt8 Nat) : Prop where
  waiting : ∀ c ∈ anonymous,
    c < next ∧ (conns c).isOpen = true ∧ ∀ id, connectors.lookup id ≠ some c
  linked : ∀ id c, connectors.lookup id = some c →
    c < next ∧ (conns c).isOpen = true ∧ ∃ info, (conns c).info = some info ∧ info.id = id
  placed : ∀ c, c < next → (conns c).isOpen = true →
    c ∈ anonymous ∨ ∃ id, connectors.lookup id = some c
  pending : ∀ c, (conns c).pending = true → (conns c).connect = false ∧ (conns c).info = none
  live : ∀ c, (conns c).connect = true ∨ (conns c).pending = true → c < next

def Placed (s : NodeMonitor) : Prop := PlacedOn s.conns s.next s.anonymous s.connectors

theorem init_placed (cfg : Configure) : Placed (init cfg) := by
  constructor
  · intro c hmem
    cases hmem
  · intro id c hlookup
    cases hlookup
  · intro c hlt
    cases hlt
  · intro c hpending
    cases hpending
  · rintro c (hlive | hlive) <;> cases hlive

namespace PlacedOn

variable {conns : Nat → Connector} {next : Nat} {anonymous : List Nat}
  {connectors : Table UInt8 Nat} {conn : Connector}

/-- The containers do not depend on what is in the receive queues. -/
theorem congr {conns' : Nat → Connector} (h : PlacedOn conns next anonymous connectors)
    (hconns : ∀ c, ∃ q, conns' c = { conns c with recvq := q }) :
    PlacedOn conns' next anonymous connectors := by
  have hopen : ∀ c, (conns' c).isOpen = (conns c).isOpen := by
    intro c
    obtain ⟨q, hq⟩ := hconns c
    rw [hq]
    rfl
  have hinfo : ∀ c, (conns' c).info = (conns c).info := by
    intro c
    obtain ⟨q, hq⟩ := hconns c
    rw [hq]
  have hconnect : ∀ c, (conns' c).connect = (conns c).connect := by
    intro c
    obtain ⟨q, hq⟩ := hconns c
    rw [hq]
  have hpending : ∀ c, (conns' c).pending = (conns c).pending := by
    intro c
    obtain ⟨q, hq⟩ := hconns c
    rw [hq]
  constructor
  · simpa only [hopen] using h.waiting
  · simpa only [hopen, hinfo] using h.linked
  · simpa only [hopen] using h.placed
  · simpa only [hpending, hconnect, hinfo] using h.pending
  · simpa only [hpending, hconnect] using h.live

/-- A connector that is in `connectors` is in there under its own id only. -/
theorem lookup_info (h : PlacedOn conns next anonymous connectors) {id : UInt8} {info : NodeInfo}
    (hlookup : connectors.lookup id = some c) (hinfo : (conns c).info = some info) :
    info.id = id := by
  obtain ⟨-, -, info', hinfo', hid⟩ := h.linked id c hlookup
  rw [hinfo] at hinfo'
  cases hinfo'
  exact hid

/-- An open connector that is not authenticated is anonymous. -/
theorem mem_anonymous (h : PlacedOn conns next anonymous connectors) (hlt : c < next)
    (hopen : (conns c).isOpen = true) (hinfo : (conns c).info = none) : c ∈ anonymous := by
  obtain hmem | ⟨id, hlookup⟩ := h.placed c hlt hopen
  · exact hmem
  · obtain ⟨-, -, info, hsome, -⟩ := h.linked id c hlookup
    rw [hinfo] at hsome
    cases hsome

/-- The containers stay right when a connector changes and stays open or closed. -/
theorem update (h : PlacedOn conns next anonymous connectors) (hlt : c < next)
    (hopen : conn.isOpen = (conns c).isOpen) (hinfo : conn.info = (conns c).info)
    (hpending : conn.pending = true → conn.connect = false ∧ conn.info = none) :
    PlacedOn (Function.update conns c conn) next anonymous connectors := by
  have hopens : ∀ c', (Function.update conns c conn c').isOpen = (conns c').isOpen := by
    intro c'
    by_cases heq : c' = c
    · rw [heq, Function.update_self, hopen]
    · rw [Function.update_of_ne heq]
  have hinfos : ∀ c', (Function.update conns c conn c').info = (conns c').info := by
    intro c'
    by_cases heq : c' = c
    · rw [heq, Function.update_self, hinfo]
    · rw [Function.update_of_ne heq]
  constructor
  · simpa only [hopens] using h.waiting
  · simpa only [hopens, hinfos] using h.linked
  · simpa only [hopens] using h.placed
  · intro c'
    by_cases heq : c' = c
    · rw [heq, Function.update_self]
      exact hpending
    · rw [Function.update_of_ne heq]
      exact h.pending c'
  · intro c'
    by_cases heq : c' = c
    · rw [heq]
      exact fun _ => hlt
    · rw [Function.update_of_ne heq]
      exact h.live c'

/-- A new connector is put among the anonymous ones. -/
theorem push (h : PlacedOn conns next anonymous connectors) (hopen : conn.isOpen = true)
    (hpending : conn.pending = true → conn.connect = false ∧ conn.info = none) :
    PlacedOn (Function.update conns next conn) (next + 1) (anonymous ++ [next]) connectors := by
  have hold : ∀ c, c < next → Function.update conns next conn c = conns c := by
    intro c hlt
    exact Function.update_of_ne (Nat.ne_of_lt hlt) ..
  constructor
  · intro c hmem
    rcases List.mem_append.mp hmem with hmem | hmem
    · obtain ⟨hlt, hopen', hnot⟩ := h.waiting c hmem
      rw [hold c hlt]
      exact ⟨Nat.lt_succ_of_lt hlt, hopen', hnot⟩
    · rw [List.mem_singleton.mp hmem, Function.update_self]
      refine ⟨Nat.lt_succ_self next, hopen, ?_⟩
      intro id hlookup
      exact Nat.lt_irrefl next (h.linked id next hlookup).1
  · intro id c hlookup
    obtain ⟨hlt, hrest⟩ := h.linked id c hlookup
    rw [hold c hlt]
    exact ⟨Nat.lt_succ_of_lt hlt, hrest⟩
  · intro c hlt hopen'
    rcases Nat.lt_succ_iff_lt_or_eq.mp hlt with hlt | heq
    · rw [hold c hlt] at hopen'
      rcases h.placed c hlt hopen' with hmem | hlinked
      · exact .inl (List.mem_append_left _ hmem)
      · exact .inr hlinked
    · exact .inl (List.mem_append_right _ (List.mem_singleton.mpr heq))
  · intro c
    by_cases heq : c = next
    · rw [heq, Function.update_self]
      exact hpending
    · rw [Function.update_of_ne heq]
      exact h.pending c
  · intro c
    by_cases heq : c = next
    · rw [heq]
      exact fun _ => Nat.lt_succ_self next
    · rw [Function.update_of_ne heq]
      exact fun hlive => Nat.lt_succ_of_lt (h.live c hlive)

/-- A connector that is closed for good is taken out of the containers. -/
theorem retire {connectors' : Table UInt8 Nat} (h : PlacedOn conns next anonymous connectors)
    (hopen : conn.isOpen = false) (hconnect : conn.connect = false)
    (hpending : conn.pending = false)
    (hconnectors : ∀ id c', connectors'.lookup id = some c' ↔
      connectors.lookup id = some c' ∧ c' ≠ c) :
    PlacedOn (Function.update conns c conn) next (anonymous.filter (· ≠ c)) connectors' := by
  constructor
  · intro c' hmem
    rw [List.mem_filter, decide_eq_true_iff] at hmem
    obtain ⟨hlt, hopen', hnot⟩ := h.waiting c' hmem.1
    rw [Function.update_of_ne hmem.2]
    exact ⟨hlt, hopen', fun id hlookup => hnot id ((hconnectors id c').mp hlookup).1⟩
  · intro id c' hlookup
    obtain ⟨hlookup, hne⟩ := (hconnectors id c').mp hlookup
    rw [Function.update_of_ne hne]
    exact h.linked id c' hlookup
  · intro c' hlt hopen'
    by_cases heq : c' = c
    · rw [heq, Function.update_self, hopen] at hopen'
      cases hopen'
    · rw [Function.update_of_ne heq] at hopen'
      rcases h.placed c' hlt hopen' with hmem | ⟨id, hlookup⟩
      · exact .inl (List.mem_filter.mpr ⟨hmem, decide_eq_true heq⟩)
      · exact .inr ⟨id, (hconnectors id c').mpr ⟨hlookup, heq⟩⟩
  · intro c'
    by_cases heq : c' = c
    · rw [heq, Function.update_self, hpending]
      intro hfalse
      cases hfalse
    · rw [Function.update_of_ne heq]
      exact h.pending c'
  · intro c'
    by_cases heq : c' = c
    · rw [heq, Function.update_self, hconnect, hpending]
      rintro (hfalse | hfalse) <;> cases hfalse
    · rw [Function.update_of_ne heq]
      exact h.live c'

/-- An anonymous connector is authenticated, under an id that may be in use. -/
theorem authenticate (h : PlacedOn conns next anonymous connectors) (hlt : c < next)
    (hconnect : (conns c).connect = true) (hinfo : (conns c).info = none) (info : NodeInfo) :
    PlacedOn (Function.update conns c { conns c with info := some info }) next
      (if info.id ∈ connectors then anonymous else anonymous.filter (· ≠ c))
      (Table.emplace connectors info.id c) := by
  have hopen : (conns c).isOpen = true := by simp [Connector.isOpen, hconnect]
  have hanon := h.mem_anonymous hlt hopen hinfo
  have hnot := (h.waiting c hanon).2.2
  have hpending : ∀ c', (Function.update conns c { conns c with info := some info } c').pending =
      true → c' ≠ c := by
    rintro c' hpend rfl
    rw [Function.update_self] at hpend
    rw [(h.pending c' hpend).1] at hconnect
    cases hconnect
  have hopens : ∀ c', (Function.update conns c { conns c with info := some info } c').isOpen =
      (conns c').isOpen := by
    intro c'
    by_cases heq : c' = c
    · rw [heq, Function.update_self]
      rfl
    · rw [Function.update_of_ne heq]
  have hinfos : ∀ c', c' ≠ c →
      (Function.update conns c { conns c with info := some info } c').info = (conns c').info := by
    intro c' hne
    rw [Function.update_of_ne hne]
  have hrest : ∀ c', (Function.update conns c { conns c with info := some info } c').pending = true →
      (Function.update conns c { conns c with info := some info } c').connect = false ∧
      (Function.update conns c { conns c with info := some info } c').info = none := by
    intro c' hpend
    have hne := hpending c' hpend
    rw [Function.update_of_ne hne] at hpend ⊢
    exact h.pending c' hpend
  have hlive : ∀ c', (Function.update conns c { conns c with info := some info } c').connect = true ∨
      (Function.update conns c { conns c with info := some info } c').pending = true →
      c' < next := by
    intro c'
    by_cases heq : c' = c
    · rw [heq]
      exact fun _ => hlt
    · rw [Function.update_of_ne heq]
      exact h.live c'
  by_cases hdup : info.id ∈ connectors
  · -- the id is in use: nothing moves, and the connector stays anonymous
    rw [if_pos hdup, Table.emplace, if_pos hdup]
    refine ⟨?_, ?_, ?_, hrest, hlive⟩
    · simpa only [hopens] using h.waiting
    · intro id c' hlookup
      have hne : c' ≠ c := fun heq => hnot id (heq ▸ hlookup)
      rw [hopens, hinfos c' hne]
      exact h.linked id c' hlookup
    · simpa only [hopens] using h.placed
  · rw [if_neg hdup]
    have hlookup : ∀ id c', (Table.emplace connectors info.id c).lookup id = some c' ↔
        (id = info.id ∧ c' = c) ∨ (id ≠ info.id ∧ connectors.lookup id = some c') := by
      intro id c'
      rw [Table.lookup_emplace, AList.lookup_eq_none.mpr hdup]
      split
      · simp [*, eq_comm]
      · simp [*]
    refine ⟨?_, ?_, ?_, hrest, hlive⟩
    · intro c' hmem
      rw [List.mem_filter, decide_eq_true_iff] at hmem
      obtain ⟨hlt', hopen', hnot'⟩ := h.waiting c' hmem.1
      refine ⟨hlt', by rw [hopens]; exact hopen', ?_⟩
      intro id hsome
      rcases (hlookup id c').mp hsome with ⟨-, heq⟩ | ⟨-, hsome⟩
      · exact hmem.2 heq
      · exact hnot' id hsome
    · intro id c' hsome
      rw [hopens]
      rcases (hlookup id c').mp hsome with ⟨hid, rfl⟩ | ⟨-, hsome⟩
      · rw [Function.update_self]
        exact ⟨hlt, hopen, info, rfl, hid.symm⟩
      · rw [hinfos c' fun heq => hnot id (heq ▸ hsome)]
        exact h.linked id c' hsome
    · intro c' hlt' hopen'
      rw [hopens] at hopen'
      by_cases heq : c' = c
      · exact .inr ⟨info.id, (hlookup info.id c').mpr (.inl ⟨rfl, heq⟩)⟩
      · rcases h.placed c' hlt' hopen' with hmem | ⟨id, hsome⟩
        · exact .inl (List.mem_filter.mpr ⟨hmem, decide_eq_true heq⟩)
        · refine .inr ⟨id, (hlookup id c').mpr (.inr ⟨?_, hsome⟩)⟩
          rintro rfl
          exact hdup (AList.lookup_isSome.mp (by rw [hsome]; rfl))

end PlacedOn

/-! ### Handlers -/

theorem SameLinks.placed (hsame : SameLinks s s') (h : Placed s) : Placed s' := by
  have h' := PlacedOn.congr h hsame.conns
  unfold Placed
  rw [hsame.next, hsame.anonymous, hsame.connectors]
  exact h'

theorem checkIfAllSetup_placed (h : Placed s) : Placed s.checkIfAllSetup := by
  unfold checkIfAllSetup
  split <;> exact h

theorem checkIfAllRollback_placed (h : Placed s) : Placed s.checkIfAllRollback := by
  unfold checkIfAllRollback
  split <;> exact h

theorem checkIfAllCleanup_placed {quiet : Bool} (h : Placed s) :
    Placed (s.checkIfAllCleanup quiet) := by
  unfold checkIfAllCleanup
  split <;> exact h

/-- Connectors that are connected wait for their close handler, the others are gone. -/
theorem closeAll_placed (h : Placed s) : Placed s.closeAll := by
  have hsame : ∀ c, (s.closeAll.conns c).connect = (s.conns c).connect ∧
      (s.closeAll.conns c).pending = (s.conns c).pending ∧
      (s.closeAll.conns c).info = (s.conns c).info := by
    intro c
    simp only [closeAll]
    split <;> exact ⟨rfl, rfl, rfl⟩
  have hopen : ∀ c, (s.conns c).connect = true → (s.closeAll.conns c).isOpen = true := by
    intro c hconnect
    simp [Connector.isOpen, (hsame c).1, hconnect]
  constructor
  · intro c hmem
    obtain ⟨hmem, hconnect⟩ := List.mem_filter.mp hmem
    obtain ⟨hlt, -, hnot⟩ := h.waiting c hmem
    exact ⟨hlt, hopen c hconnect, fun id hsome => hnot id (Table.lookup_keep.mp hsome).1⟩
  · intro id c hsome
    obtain ⟨hsome, hconnect⟩ := Table.lookup_keep.mp hsome
    obtain ⟨hlt, -, hinfo⟩ := h.linked id c hsome
    rw [(hsame c).2.2]
    exact ⟨hlt, hopen c hconnect, hinfo⟩
  · intro c hlt hopen'
    have hin : c ∈ s.anonymous ∨ c ∈ s.connectors.values := by
      by_contra hnot
      have heq : s.closeAll.conns c = s.conns c := if_neg hnot
      rw [heq] at hopen'
      rcases h.placed c hlt hopen' with hmem | hlinked
      · exact hnot (.inl hmem)
      · exact hnot (.inr (Table.mem_values.mpr hlinked))
    have hconnect : (s.conns c).connect = true := by
      have heq : s.closeAll.conns c = { s.conns c with closed := true } := if_pos hin
      simpa [Connector.isOpen, heq] using hopen'
    rcases hin with hmem | hmem
    · exact .inl (List.mem_filter.mpr ⟨hmem, hconnect⟩)
    · obtain ⟨id, hsome⟩ := Table.mem_values.mp hmem
      exact .inr ⟨id, Table.lookup_keep.mpr ⟨hsome, hconnect⟩⟩
  · intro c
    rw [(hsame c).1, (hsame c).2.1, (hsame c).2.2]
    exact h.pending c
  · intro c
    rw [(hsame c).1, (hsame c).2.1]
    exact h.live c

theorem rollback_placed (h : Placed s) : Placed s.rollback := closeAll_placed h

theorem close_placed (h : Placed s) (hconnect : (s.conns c).connect = true) :
    Placed (s.close c) := by
  apply PlacedOn.update h (h.live c (.inl hconnect))
  · simp [Connector.isOpen, hconnect]
  · rfl
  · intro hpending
    exact h.pending c hpending

theorem sendMessage_placed {msg : Message} (h : Placed s) : Placed (s.sendMessage c msg) :=
  (sendMessage_registry s c msg).same.placed h

theorem onConnect_placed (h : Placed s) (hlt : c < s.next)
    (hopen : (s.conns c).isOpen = true) : Placed (s.onConnect c) := by
  apply sendMessage_placed
  apply PlacedOn.update h hlt
  · rw [hopen]
    rfl
  · rfl
  · intro hpending
    cases hpending

theorem drop_placed (h : Placed s) (hconnect : (s.conns c).connect = false)
    (hpending : (s.conns c).pending = false) (hinfo : (s.conns c).info = none) :
    Placed (s.drop c) := by
  apply PlacedOn.retire h
  · simp [Connector.isOpen, hconnect]
  · exact hconnect
  · exact hpending
  · intro id c'
    constructor
    · intro hsome
      refine ⟨hsome, ?_⟩
      rintro rfl
      obtain ⟨-, -, info, hsome', -⟩ := h.linked id c' hsome
      rw [hinfo] at hsome'
      cases hsome'
    · exact fun hsome => hsome.1

theorem refuse_placed (h : Placed s) (hconnect : (s.conns c).connect = false)
    (hpending : (s.conns c).pending = false) (hinfo : (s.conns c).info = none) :
    Placed (s.refuse c) := by
  have hdrop := drop_placed h hconnect hpending hinfo
  rw [refuse_eq]
  apply checkIfAllRollback_placed
  split
  · exact rollback_placed hdrop
  · exact hdrop

theorem authenticate_placed (h : Placed s) (hconnect : (s.conns c).connect = true)
    (hinfo : (s.conns c).info = none) (info : NodeInfo) : Placed (s.authenticate c info) := by
  have hauth := PlacedOn.authenticate h (h.live c (.inl hconnect)) hconnect hinfo info
  rw [authenticate_eq]
  split
  · rename_i hdup
    rw [if_pos hdup, Table.emplace, if_pos hdup] at hauth
    exact hauth
  · rename_i hdup
    rw [if_neg hdup] at hauth
    have hlink : Placed ((s.identify c info).link c info) := hauth
    rw [onNodeUp_eq]
    exact checkIfAllSetup_placed hlink

theorem connectLink_placed (h : Placed s) (link : LinkNodeInfo) (result : ConnectResult) :
    Placed (s.connectLink link result) := by
  have hpush : Placed (s.enter link.require) :=
    PlacedOn.push h rfl fun hpending => by cases hpending
  have hnew : (s.enter link.require).conns s.next = Connector.new link.require :=
    Function.update_self ..
  rw [connectLink_eq]
  cases result with
  | connected =>
      apply onConnect_placed hpush (Nat.lt_succ_self _)
      rw [hnew]
      rfl
  | inProgress =>
      apply PlacedOn.update hpush (Nat.lt_succ_self _)
      · rw [hnew]
        rfl
      · rw [hnew]
      · exact fun _ => ⟨rfl, rfl⟩
  | failed =>
      apply refuse_placed hpush
      · rw [hnew]
        rfl
      · rw [hnew]
        rfl
      · rw [hnew]
        rfl

theorem beginSetup_placed (h : Placed s) (parsed bound : Bool) (results : List ConnectResult) :
    Placed (s.beginSetup parsed bound results) := by
  rw [beginSetup_eq]
  split
  · apply checkIfAllSetup_placed
    refine connectLinks_keeps (P := Placed) (fun _ link result ht => connectLink_placed ht link result)
      ?_ _ _
    split <;> exact h
  · exact h

theorem onListenerAccept_placed (h : Placed s) : Placed s.onListenerAccept := by
  obtain ⟨es, heq, -⟩ := onListenerAccept_eq s
  rw [heq]
  exact PlacedOn.push h rfl fun hpending => by cases hpending

/-- A connector that a step closes for good is the one that is known by its id. -/
def Rightful (s : NodeMonitor) : Action → Prop
  | .finalise c _ => ((s.conns c).connect && (s.conns c).closed) = true →
      ∀ info ∈ (s.conns c).info, s.connectors.lookup info.id = some c
  | _ => True

instance (s : NodeMonitor) : ∀ a, Decidable (Rightful s a)
  | .finalise c _ => inferInstanceAs (Decidable (((s.conns c).connect && (s.conns c).closed) = true →
      ∀ info ∈ (s.conns c).info, s.connectors.lookup info.id = some c))
  | .beginSetup .. | .beginCleanup _ | .accept | .connectResult _ _ | .arrive _ _ | .handle _
  | .fail _ | .create _ _ | .destroy _ | .cast _ | .quiet => isTrue trivial

theorem leave_placed (h : Placed s) (hconnect : (s.conns c).connect = true)
    (hclosed : (s.conns c).closed = true)
    (hright : ∀ info, (s.conns c).info = some info → s.connectors.lookup info.id = some c) :
    Placed (s.leave c) := by
  have hpending : (s.conns c).pending = false := by
    by_contra hpend
    rw [(h.pending c (Bool.eq_true_of_not_eq_false hpend)).1] at hconnect
    cases hconnect
  have hopen : Connector.isOpen { s.conns c with connect := false } = false := by
    simp [Connector.isOpen, hclosed]
  unfold leave
  rcases hinfo : (s.conns c).info with _ | info
  · -- an anonymous connector
    apply PlacedOn.retire h hopen rfl hpending
    intro id c'
    constructor
    · intro hsome
      refine ⟨hsome, ?_⟩
      rintro rfl
      obtain ⟨-, -, info, hsome', -⟩ := h.linked id c' hsome
      rw [hinfo] at hsome'
      cases hsome'
    · exact fun hsome => hsome.1
  · -- the connector known by its id, which is not anonymous
    have hnot : c ∉ s.anonymous := fun hmem => (h.waiting c hmem).2.2 info.id (hright info hinfo)
    have hfilter : s.anonymous.filter (· ≠ c) = s.anonymous := by
      rw [List.filter_eq_self]
      intro c' hmem
      exact decide_eq_true fun heq => hnot (heq ▸ hmem)
    have herase : ∀ id c', (s.connectors.erase info.id).lookup id = some c' ↔
        s.connectors.lookup id = some c' ∧ c' ≠ c := by
      intro id c'
      rw [Table.lookup_erase_eq]
      split
      · rename_i heq
        subst heq
        rw [hright info hinfo]
        simp [eq_comm]
      · rename_i hne
        constructor
        · intro hsome
          refine ⟨hsome, ?_⟩
          rintro rfl
          exact hne (h.lookup_info hsome hinfo).symm
        · exact fun hsome => hsome.1
    have hretire := PlacedOn.retire h hopen rfl hpending herase
    rw [hfilter] at hretire
    exact hretire

/-! ### Runs -/

theorem step_placed (h : Placed s) {a : Action} (hright : Rightful s a) : Placed (s.step a) := by
  have heffect := step_effect s a
  generalize s.step a = t at heffect
  cases heffect with
  | quiet hsame => exact hsame.placed h
  | setup _ => exact beginSetup_placed h _ _ _
  | cleanup _ => exact checkIfAllCleanup_placed (closeAll_placed h)
  | accept _ => exact onListenerAccept_placed h
  | @connected c hpending hclosed =>
      apply onConnect_placed h (h.live c (.inr hpending))
      simp [Connector.isOpen, hclosed]
  | @refused c hpending hclosed =>
      obtain ⟨hconnect, hinfo⟩ := h.pending c hpending
      have hset : Placed (s.setConn c { s.conns c with pending := false }) :=
        PlacedOn.update h (h.live c (.inr hpending)) rfl rfl fun hfalse => by cases hfalse
      apply refuse_placed hset
      · rw [setConn_self]
        exact hconnect
      · rw [setConn_self]
      · rw [setConn_self]
        exact hinfo
  | @authenticated c t info hsame hconnect hinfo _ =>
      obtain ⟨q, hq⟩ := hsame.conns c
      apply authenticate_placed (hsame.placed h)
      · rw [hq]
        exact hconnect
      · rw [hq]
        exact hinfo
  | @failed _ c t hsame hconnect =>
      obtain ⟨q, hq⟩ := hsame.conns c
      apply close_placed (hsame.placed h)
      rw [hq]
      exact hconnect
  | @finalised c quiet hconnect hclosed =>
      have hleave := leave_placed h hconnect hclosed (hright (by rw [hconnect, hclosed]; rfl))
      rw [finalise_eq]
      apply checkIfAllRollback_placed
      apply checkIfAllCleanup_placed
      split
      · exact rollback_placed hleave
      · exact hleave
  | stopped => exact checkIfAllCleanup_placed h

/-- Every connector is where it should be.  A connector whose close handler has run is not
    open. -/
structure Filed (s : NodeMonitor) : Prop where
  one : ∀ c, c < s.next → (s.conns c).isOpen = true →
    Xor (c ∈ s.anonymous) (c ∈ s.connectors.values)
  known : ∀ id c, s.connectors.lookup id = some c →
    (s.conns c).isOpen = true ∧ ∃ info, (s.conns c).info = some info ∧ info.id = id
  gone : ∀ c, (s.conns c).isOpen = false → c ∉ s.anonymous ∧ c ∉ s.connectors.values

theorem Placed.filed (h : Placed s) : Filed s := by
  constructor
  · intro c hlt hopen
    rcases h.placed c hlt hopen with hmem | hlinked
    · refine .inl ⟨hmem, ?_⟩
      intro hvalue
      obtain ⟨id, hsome⟩ := Table.mem_values.mp hvalue
      exact (h.waiting c hmem).2.2 id hsome
    · refine .inr ⟨Table.mem_values.mpr hlinked, ?_⟩
      intro hmem
      obtain ⟨id, hsome⟩ := hlinked
      exact (h.waiting c hmem).2.2 id hsome
  · intro id c hsome
    exact (h.linked id c hsome).2
  · intro c hclosed
    constructor
    · intro hmem
      rw [(h.waiting c hmem).2.1] at hclosed
      cases hclosed
    · intro hvalue
      obtain ⟨id, hsome⟩ := Table.mem_values.mp hvalue
      rw [(h.linked id c hsome).2.1] at hclosed
      cases hclosed

/-- **In every run in which no connector that took the id of another one is closed for good,
    every connector is where it should be.** -/
theorem run_filed (cfg : Configure) (as : List Action) (h : Along step Rightful (init cfg) as) :
    Filed (run step (init cfg) as) := by
  have hinv := run_invariant (I := Placed) (fun s a hs ha => step_placed hs ha) (init_placed cfg) h
  exact hinv.filed

/-- Node `b` connects to node `a`, authenticates itself, and is gone. -/
def visit : List Action :=
  [.beginSetup true true [], .accept, .arrive 0 (authMessage clusterB).toFrame, .handle 0,
    .fail 0, .finalise 0 true]

theorem run_filed_visit : Along step Rightful (init (clusterA [])) visit ∧
    Filed (run step (init (clusterA [])) visit) :=
  have hright : Along step Rightful (init (clusterA [])) visit := by decide
  ⟨hright, run_filed (clusterA []) visit hright⟩

/-- Two connections announce the id of node `b`, and the second one is closed. -/
def intrusion : List Action :=
  [.beginSetup true true [], .accept, .accept, .arrive 0 (authMessage clusterB).toFrame, .handle 0,
    .arrive 1 (authMessage clusterB).toFrame, .handle 1, .fail 1, .finalise 1 true]

/-- The first connection is open and in no container, the second is closed and still anonymous. -/
theorem run_intrusion : ¬ Filed (run step (init (clusterA [])) intrusion) := by
  intro h
  have hone := h.one 0 (by decide) (by decide)
  have hneither : 0 ∉ (run step (init (clusterA [])) intrusion).anonymous ∧
      0 ∉ (run step (init (clusterA [])) intrusion).connectors.values := by decide
  rcases hone with ⟨hmem, -⟩ | ⟨hmem, -⟩
  · exact hneither.1 hmem
  · exact hneither.2 hmem

end Jengine.Cluster.NodeMonitor
