import Jengine.Cluster.Handlers
import Mathlib.Data.List.Nodup
import Mathlib.Algebra.Ring.Nat

/-!
# The numbers of mailboxes

`ProcessIDGen` gives system mailboxes the numbers 1, 2, … below 10000 and is
meant to give the others numbers behind them.  It counts on by two, 10001,
10003, …, and when it comes to `MAX_NORMAL_ID` it goes back to 1000, which is
a number for system mailboxes.

Up to there no number is given twice, whatever is registered and unregistered
in between: `Numbered` is the invariant, and the table of mailboxes has the
entries of the mailboxes that are registered and no others.
-/

namespace Jengine.Cluster.NodeMonitor

open Jengine.Lib

variable {s s' : NodeMonitor} {name : Name} {sys : Bool} {mb mb' : Mailbox}

/-! ### Handlers that do not touch the registry of mailboxes -/

/-- The mailboxes, their table and the counters are the same. -/
structure SameBoxes (s s' : NodeMonitor) : Prop where
  mailboxes : s'.mailboxes = s.mailboxes
  boxes : s'.boxes = s.boxes
  sysCur : s'.sysCur = s.sysCur
  normalCur : s'.normalCur = s.normalCur

namespace SameBoxes

theorem refl (s : NodeMonitor) : SameBoxes s s := ⟨rfl, rfl, rfl, rfl⟩

theorem trans {t : NodeMonitor} (h : SameBoxes s t) (h' : SameBoxes t s') : SameBoxes s s' :=
  ⟨h'.mailboxes.trans h.mailboxes, h'.boxes.trans h.boxes, h'.sysCur.trans h.sysCur,
    h'.normalCur.trans h.normalCur⟩

/-- `trans`, from the end. -/
theorem after {t : NodeMonitor} (h' : SameBoxes t s') (h : SameBoxes s t) : SameBoxes s s' :=
  h.trans h'

end SameBoxes

theorem sendMessage_boxes (s : NodeMonitor) (c : Nat) (msg : Message) :
    SameBoxes s (s.sendMessage c msg) := by
  rw [sendMessage_eq]
  exact ⟨rfl, rfl, rfl, rfl⟩

theorem onConnect_boxes (s : NodeMonitor) (c : Nat) : SameBoxes s (s.onConnect c) := by
  rw [onConnect_eq]
  exact (sendMessage_boxes _ c _).after ⟨rfl, rfl, rfl, rfl⟩

theorem checkIfAllSetup_boxes (s : NodeMonitor) : SameBoxes s s.checkIfAllSetup := by
  unfold checkIfAllSetup
  split
  · exact ⟨rfl, rfl, rfl, rfl⟩
  · exact SameBoxes.refl s

theorem checkIfAllRollback_boxes (s : NodeMonitor) : SameBoxes s s.checkIfAllRollback := by
  unfold checkIfAllRollback
  split
  · exact ⟨rfl, rfl, rfl, rfl⟩
  · exact SameBoxes.refl s

theorem checkIfAllCleanup_boxes (s : NodeMonitor) (quiet : Bool) :
    SameBoxes s (s.checkIfAllCleanup quiet) := by
  unfold checkIfAllCleanup
  split
  · exact ⟨rfl, rfl, rfl, rfl⟩
  · exact SameBoxes.refl s

theorem refuse_boxes (s : NodeMonitor) (c : Nat) : SameBoxes s (s.refuse c) := by
  rw [refuse_eq]
  refine SameBoxes.trans ?_ (checkIfAllRollback_boxes _)
  split
  · exact ⟨rfl, rfl, rfl, rfl⟩
  · exact ⟨rfl, rfl, rfl, rfl⟩

theorem leave_boxes (s : NodeMonitor) (c : Nat) : SameBoxes s (s.leave c) := by
  unfold leave
  split
  · exact ⟨rfl, rfl, rfl, rfl⟩
  · exact ⟨rfl, rfl, rfl, rfl⟩

theorem finalise_boxes (s : NodeMonitor) (c : Nat) (quiet : Bool) :
    SameBoxes s (s.finalise c quiet) := by
  rw [finalise_eq]
  refine SameBoxes.trans ?_ (checkIfAllRollback_boxes _)
  refine SameBoxes.trans ?_ (checkIfAllCleanup_boxes _ quiet)
  split
  · exact (leave_boxes s c).trans ⟨rfl, rfl, rfl, rfl⟩
  · exact leave_boxes s c

theorem connectLink_boxes (s : NodeMonitor) (link : LinkNodeInfo) (result : ConnectResult) :
    SameBoxes s (s.connectLink link result) := by
  rw [connectLink_eq]
  cases result with
  | connected => exact (onConnect_boxes _ _).after ⟨rfl, rfl, rfl, rfl⟩
  | inProgress => exact ⟨rfl, rfl, rfl, rfl⟩
  | failed => exact (refuse_boxes _ _).after ⟨rfl, rfl, rfl, rfl⟩

theorem setupLinks_boxes (s : NodeMonitor) (results : List ConnectResult) :
    SameBoxes s (s.setupLinks results) := by
  unfold setupLinks
  refine SameBoxes.trans ?_ (checkIfAllSetup_boxes _)
  apply connectLinks_keeps (P := SameBoxes s)
  · intro t link result ht
    exact ht.trans (connectLink_boxes t link result)
  · split
    · exact ⟨rfl, rfl, rfl, rfl⟩
    · exact SameBoxes.refl s

theorem beginSetup_boxes (s : NodeMonitor) (parsed bound : Bool) (results : List ConnectResult) :
    SameBoxes s (s.beginSetup parsed bound results) := by
  rw [beginSetup_eq]
  split
  · exact (setupLinks_boxes _ results).after ⟨rfl, rfl, rfl, rfl⟩
  · exact ⟨rfl, rfl, rfl, rfl⟩

theorem onNodeUp_boxes (s : NodeMonitor) (c : Nat) (info : NodeInfo) :
    SameBoxes s (s.onNodeUp c info) := by
  rw [onNodeUp_eq]
  exact ⟨rfl, rfl, rfl, rfl⟩

theorem onConnectorAuthSuccess_boxes (s : NodeMonitor) (c : Nat) (info : NodeInfo) :
    SameBoxes s (s.onConnectorAuthSuccess c info) := by
  unfold onConnectorAuthSuccess
  split
  · exact ⟨rfl, rfl, rfl, rfl⟩
  · have hlink : SameBoxes s (s.link c info) := ⟨rfl, rfl, rfl, rfl⟩
    exact (hlink.trans (checkIfAllSetup_boxes _)).trans (onNodeUp_boxes _ c info)

theorem handleInternalMessage_boxes (s : NodeMonitor) (c : Nat) (msg : Message) :
    SameBoxes s (s.handleInternalMessage c msg) := by
  unfold handleInternalMessage
  split
  · split
    · exact ⟨rfl, rfl, rfl, rfl⟩
    · split
      · split
        · exact (onConnectorAuthSuccess_boxes _ c _).after ⟨rfl, rfl, rfl, rfl⟩
        · exact ⟨rfl, rfl, rfl, rfl⟩
      · exact ⟨rfl, rfl, rfl, rfl⟩
  · exact SameBoxes.refl s

theorem onConnectorReceiveMessage_boxes (s : NodeMonitor) (c : Nat) (msg : Message) :
    SameBoxes s (s.onConnectorReceiveMessage c msg) := by
  unfold onConnectorReceiveMessage
  split
  · split
    · exact SameBoxes.refl s
    · split
      · split
        · exact ⟨rfl, rfl, rfl, rfl⟩
        · exact ⟨rfl, rfl, rfl, rfl⟩
      · split
        · split
          · exact ⟨rfl, rfl, rfl, rfl⟩
          · split
            · exact ⟨rfl, rfl, rfl, rfl⟩
            · exact SameBoxes.refl s
        · exact SameBoxes.refl s
  · split
    · exact ⟨rfl, rfl, rfl, rfl⟩
    · exact SameBoxes.refl s

theorem handleMessage_boxes (s : NodeMonitor) (c : Nat) (msg : Message) :
    SameBoxes s (s.handleMessage c msg) := by
  unfold handleMessage
  split
  · exact handleInternalMessage_boxes s c msg
  · exact onConnectorReceiveMessage_boxes s c msg

theorem handleFrame_boxes (s : NodeMonitor) (c : Nat) : SameBoxes s (s.handleFrame c) := by
  unfold handleFrame
  split
  · exact SameBoxes.refl s
  · exact (handleMessage_boxes (s.receive c _) c _).after ⟨rfl, rfl, rfl, rfl⟩

/-- Whether an action registers or unregisters a mailbox. -/
def Action.registers : Action → Bool
  | .create .. => true
  | .destroy _ => true
  | _ => false

/-- Only `Register` and `UnRegister` touch the mailboxes. -/
theorem step_boxes {a : Action} (ha : a.registers = false) : SameBoxes s (s.step a) := by
  cases a with
  | beginSetup parsed bound results =>
      simp only [step]
      split
      · exact SameBoxes.refl s
      · exact beginSetup_boxes s parsed bound results
  | beginCleanup quiet =>
      simp only [step]
      split
      · have hclose : SameBoxes s (closeAll { s with state := .inCleanup }) := ⟨rfl, rfl, rfl, rfl⟩
        exact hclose.trans (checkIfAllCleanup_boxes _ quiet)
      · exact SameBoxes.refl s
  | accept =>
      simp only [step]
      split
      · obtain ⟨es, heq, -⟩ := onListenerAccept_eq s
        rw [heq]
        exact ⟨rfl, rfl, rfl, rfl⟩
      · exact SameBoxes.refl s
  | connectResult c ok =>
      simp only [step]
      split
      · split
        · exact onConnect_boxes s c
        · exact (refuse_boxes (s.setConn c { s.conns c with pending := false }) c).after
            ⟨rfl, rfl, rfl, rfl⟩
      · exact SameBoxes.refl s
  | arrive c bytes =>
      simp only [step]
      split
      · exact ⟨rfl, rfl, rfl, rfl⟩
      · exact SameBoxes.refl s
  | handle c =>
      simp only [step]
      split
      · exact handleFrame_boxes s c
      · exact SameBoxes.refl s
  | fail c =>
      simp only [step]
      split
      · exact ⟨rfl, rfl, rfl, rfl⟩
      · exact SameBoxes.refl s
  | finalise c quiet =>
      simp only [step]
      split
      · exact finalise_boxes s c quiet
      · exact SameBoxes.refl s
  | create name sys => cases ha
  | destroy mb => cases ha
  | cast msg =>
      simp only [step, cast]
      split
      · exact SameBoxes.refl s
      · split
        · exact sendMessage_boxes s _ msg
        · exact SameBoxes.refl s
  | quiet => exact checkIfAllCleanup_boxes s true

/-! ### The numbers given out -/

/-- The numbers for system mailboxes. -/
def systemPid (pid : UInt32) : Prop := 1 ≤ pid.toNat ∧ pid.toNat ≤ 9999

/-- `FindMailboxByPID` finds every mailbox that is registered. -/
def Found (s : NodeMonitor) : Prop := ∀ mb ∈ s.boxes, s.mailboxes.lookup mb.mbid.pid = some mb

/-- What registering or unregistering a mailbox must do to the table of mailboxes. -/
def RightPid (s : NodeMonitor) : Action → Prop
  | .create name sys => ∀ s' r, s.create name sys = some (s', r) →
      (∀ pid mb, s.mailboxes.lookup pid = some mb → s'.mailboxes.lookup pid = some mb) ∧
      (r = true → ∃ mb, s'.boxes = s.boxes ++ [mb] ∧
        s'.mailboxes.lookup mb.mbid.pid = some mb ∧
        (∀ mb' ∈ s.boxes, mb'.mbid.pid ≠ mb.mbid.pid) ∧
        (sys = false → ¬ systemPid mb.mbid.pid))
  | .destroy mb => ∀ pid mb', s.mailboxes.lookup pid = some mb' → mb' ≠ mb →
      (s.destroy mb).mailboxes.lookup pid = some mb'
  | _ => True

/-- The next number for a mailbox that is not a system mailbox is below `MAX_NORMAL_ID`. -/
def Room (s : NodeMonitor) : Action → Prop
  | .create name false => s.duplicate name = false → s.normalCur + 1 < 2 ^ 24
  | _ => True

/-- The generator has given the number to a mailbox. -/
def Given (s : NodeMonitor) (n : Nat) : Prop :=
  (1 ≤ n ∧ n < s.sysCur) ∨ (10000 ≤ n ∧ n < s.normalCur)

/-- Mailboxes have numbers of their own that were given to them, and the table has an entry for
    each and no others. -/
structure Numbered (s : NodeMonitor) : Prop where
  sys_pos : 1 ≤ s.sysCur
  sys_le : s.sysCur ≤ 10000
  normal_ge : 10000 ≤ s.normalCur
  normal_le : s.normalCur ≤ 2 ^ 24
  given : ∀ mb ∈ s.boxes, s.Given mb.mbid.pid.toNat
  distinct : s.boxes.Pairwise fun mb mb' => mb.mbid.pid ≠ mb'.mbid.pid
  entries : ∀ pid mb, s.mailboxes.lookup pid = some mb ↔ mb ∈ s.boxes ∧ mb.mbid.pid = pid

theorem init_numbered (cfg : Configure) : Numbered (init cfg) where
  sys_pos := Nat.le_refl 1
  sys_le := (by decide : 1 ≤ 10000)
  normal_ge := Nat.le_refl 10000
  normal_le := (by decide : 10000 ≤ 2 ^ 24)
  given := fun mb hmb => absurd hmb List.not_mem_nil
  distinct := List.Pairwise.nil
  entries := fun pid mb => by simp [init]

namespace Numbered

theorem found (h : Numbered s) : Found s := by
  intro mb hmb
  exact (h.entries _ _).mpr ⟨hmb, rfl⟩

theorem nodup (h : Numbered s) : s.boxes.Nodup := h.distinct.imp fun hne heq => hne (by rw [heq])

/-- Only the registry matters. -/
theorem of_same (h : Numbered s) (hsame : SameBoxes s s') : Numbered s' := by
  obtain ⟨hmailboxes, hboxes, hsys, hnormal⟩ := hsame
  refine ⟨?_, ?_, ?_, ?_, ?_, ?_, ?_⟩
  · rw [hsys]
    exact h.sys_pos
  · rw [hsys]
    exact h.sys_le
  · rw [hnormal]
    exact h.normal_ge
  · rw [hnormal]
    exact h.normal_le
  · intro mb hmb
    rw [hboxes] at hmb
    have hgiven := h.given mb hmb
    unfold Given at hgiven ⊢
    rw [hsys, hnormal]
    exact hgiven
  · rw [hboxes]
    exact h.distinct
  · rw [hmailboxes, hboxes]
    exact h.entries

/-- A mailbox with a new number is registered. -/
theorem register (h : Numbered s) (name : Name) {pid : Nat} (hgiven : s.Given pid)
    (hfresh : ∀ mb ∈ s.boxes, mb.mbid.pid.toNat ≠ pid) : Numbered (s.register name pid) := by
  have hlt : pid < 2 ^ 32 := by
    have := h.sys_le
    have := h.normal_le
    rcases hgiven with hgiven | hgiven <;> omega
  have hpid : (UInt32.ofNat pid).toNat = pid := UInt32.toNat_ofNat_of_lt' hlt
  have hne : ∀ mb ∈ s.boxes, mb.mbid.pid ≠ UInt32.ofNat pid := by
    intro mb hmb heq
    apply hfresh mb hmb
    rw [heq, hpid]
  have hnone : s.mailboxes.lookup (UInt32.ofNat pid) = none := by
    rcases hlookup : s.mailboxes.lookup (UInt32.ofNat pid) with _ | mb
    · rfl
    · obtain ⟨hmb, heq⟩ := (h.entries _ _).mp hlookup
      exact absurd heq (hne mb hmb)
  rw [register_eq]
  refine ⟨h.sys_pos, h.sys_le, h.normal_ge, h.normal_le, ?_, ?_, ?_⟩
  · intro mb hmb
    rcases List.mem_append.mp hmb with hmb | hmb
    · exact h.given mb hmb
    · rw [List.mem_singleton.mp hmb]
      show s.Given (UInt32.ofNat pid).toNat
      rw [hpid]
      exact hgiven
  · apply List.pairwise_append.mpr
    refine ⟨h.distinct, List.pairwise_singleton _ _, ?_⟩
    intro mb hmb mb' hmb'
    rw [List.mem_singleton.mp hmb']
    exact hne mb hmb
  · intro pid' mb
    show (Table.emplace s.mailboxes _ _).lookup pid' = some mb ↔ mb ∈ s.boxes ++ [_] ∧ _
    rw [Table.lookup_emplace, hnone, List.mem_append, List.mem_singleton]
    by_cases heq : pid' = UInt32.ofNat pid
    · subst heq
      simp only [if_true, Option.getD_none, Option.some.injEq]
      constructor
      · rintro rfl
        exact ⟨.inr rfl, rfl⟩
      · rintro ⟨hmb | hmb, hmbid⟩
        · exact absurd hmbid (hne mb hmb)
        · exact hmb.symm
    · rw [if_neg heq, h.entries]
      constructor
      · rintro ⟨hmb, hmbid⟩
        exact ⟨.inl hmb, hmbid⟩
      · rintro ⟨hmb | rfl, hmbid⟩
        · exact ⟨hmb, hmbid⟩
        · exact absurd hmbid.symm heq

/-- The mailbox that was refused a name has no number. -/
theorem refused (h : Numbered s) (name : Name) : Numbered (s.unRegister ⟨name, .nullID⟩) ∧
    ∀ pid, (s.unRegister ⟨name, .nullID⟩).mailboxes.lookup pid = s.mailboxes.lookup pid := by
  have hlookup : ∀ pid, (s.mailboxes.erase 0).lookup pid = s.mailboxes.lookup pid := by
    intro pid
    rw [Table.lookup_erase_eq]
    split
    · rename_i hzero
      rcases hlookup : s.mailboxes.lookup pid with _ | mb
      · rfl
      · obtain ⟨hmb, heq⟩ := (h.entries _ _).mp hlookup
        have hgiven := h.given mb hmb
        rw [heq, hzero, Given, UInt32.toNat_zero] at hgiven
        omega
    · rfl
  rw [unRegister_eq]
  refine ⟨⟨h.sys_pos, h.sys_le, h.normal_ge, h.normal_le, h.given, h.distinct, ?_⟩, hlookup⟩
  intro pid mb
  show (s.mailboxes.erase 0).lookup pid = some mb ↔ _
  rw [hlookup]
  exact h.entries pid mb

/-- A mailbox is unregistered, and the entries of the others stay. -/
theorem destroy (h : Numbered s) : Numbered (s.destroy mb) ∧
    ∀ pid mb', s.mailboxes.lookup pid = some mb' → mb' ≠ mb →
      (s.destroy mb).mailboxes.lookup pid = some mb' := by
  unfold NodeMonitor.destroy
  split
  · rename_i hmb
    have hlookup : ∀ pid mb', (s.mailboxes.erase mb.mbid.pid).lookup pid = some mb' ↔
        (mb' ∈ s.boxes ∧ mb'.mbid.pid = pid) ∧ mb' ≠ mb := by
      intro pid mb'
      rw [Table.lookup_erase_eq, ← h.entries]
      split
      · rename_i heq
        rw [heq, h.found mb hmb]
        simp only [reduceCtorEq, Option.some.injEq, false_iff, not_and, not_not]
        exact Eq.symm
      · rename_i hne
        constructor
        · intro hfound
          refine ⟨hfound, ?_⟩
          rintro rfl
          exact hne ((h.entries _ _).mp hfound).2.symm
        · exact fun hfound => hfound.1
    rw [unRegister_eq]
    refine ⟨⟨h.sys_pos, h.sys_le, h.normal_ge, h.normal_le, ?_, ?_, ?_⟩, ?_⟩
    · exact fun mb' hmb' => h.given mb' (List.mem_of_mem_erase hmb')
    · exact h.distinct.sublist List.erase_sublist
    · intro pid mb'
      show (s.mailboxes.erase mb.mbid.pid).lookup pid = some mb' ↔ mb' ∈ s.boxes.erase mb ∧ _
      rw [hlookup, h.nodup.mem_erase_iff]
      tauto
    · intro pid mb' hfound hne
      exact (hlookup pid mb').mpr ⟨(h.entries _ _).mp hfound, hne⟩
  · exact ⟨h, fun pid mb' hfound _ => hfound⟩

end Numbered

/-- A number is used up along with the one that is given. -/
theorem genPid_room (h : s.normalCur + 1 < 2 ^ 24) :
    s.genPid false = some (s.normalCur + 1, { s with normalCur := s.normalCur + 2 }) := by
  rw [genPid, if_neg (by decide)]
  simp only [if_neg (Nat.not_le.mpr h)]

theorem genPid_full (h : 2 ^ 24 ≤ s.normalCur + 1) :
    s.genPid false = some (1000, { s with normalCur := 1001 }) := by
  rw [genPid, if_neg (by decide)]
  simp only [if_pos h]

/-- The next number was not given before. -/
theorem genPid_numbered {pid : Nat} (h : Numbered s) (hroom : sys = false → s.normalCur + 1 < 2 ^ 24)
    (hgen : s.genPid sys = some (pid, s')) :
    Numbered s' ∧ s'.mailboxes = s.mailboxes ∧ s'.boxes = s.boxes ∧
      s'.config = s.config ∧ s'.Given pid ∧ (∀ mb ∈ s.boxes, mb.mbid.pid.toNat ≠ pid) ∧
      (sys = false → 10000 ≤ pid) := by
  have hpos := h.sys_pos
  have hge := h.normal_ge
  have hle := h.normal_le
  have hsys := h.sys_le
  cases sys with
  | true =>
      rw [genPid, if_pos rfl] at hgen
      split at hgen
      · rename_i hlt
        cases hgen
        refine ⟨⟨?_, ?_, h.normal_ge, h.normal_le, ?_, h.distinct, h.entries⟩, rfl, rfl, rfl,
          ?_, ?_, by simp⟩
        · show 1 ≤ s.sysCur + 1
          omega
        · show s.sysCur + 1 ≤ 10000
          omega
        · intro mb hmb
          have hgiven := h.given mb hmb
          unfold Given at hgiven ⊢
          dsimp only
          omega
        · unfold Given
          dsimp only
          omega
        · intro mb hmb heq
          have hgiven := h.given mb hmb
          unfold Given at hgiven
          omega
      · cases hgen
  | false =>
      have hlt := hroom rfl
      rw [genPid_room hlt] at hgen
      cases hgen
      refine ⟨⟨h.sys_pos, h.sys_le, ?_, ?_, ?_, h.distinct, h.entries⟩, rfl, rfl, rfl, ?_, ?_, ?_⟩
      · show 10000 ≤ s.normalCur + 2
        omega
      · show s.normalCur + 2 ≤ 2 ^ 24
        omega
      · intro mb hmb
        have hgiven := h.given mb hmb
        unfold Given at hgiven ⊢
        dsimp only
        omega
      · unfold Given
        dsimp only
        omega
      · intro mb hmb heq
        have hgiven := h.given mb hmb
        unfold Given at hgiven
        omega
      · intro _
        omega

/-- While there is room, a registration gives a new number and keeps all entries. -/
theorem create_numbered {r : Bool} (h : Numbered s) (hroom : Room s (.create name sys))
    (hcreate : s.create name sys = some (s', r)) :
    Numbered s' ∧ (∀ pid mb, s.mailboxes.lookup pid = some mb → s'.mailboxes.lookup pid = some mb) ∧
      (r = true → ∃ mb, s'.boxes = s.boxes ++ [mb] ∧ s'.mailboxes.lookup mb.mbid.pid = some mb ∧
        (∀ mb' ∈ s.boxes, mb'.mbid.pid ≠ mb.mbid.pid) ∧ (sys = false → ¬ systemPid mb.mbid.pid)) := by
  unfold create at hcreate
  split at hcreate
  · cases hcreate
    obtain ⟨hnumbered, hlookup⟩ := h.refused name
    refine ⟨hnumbered, ?_, by simp⟩
    intro pid mb hfound
    rw [hlookup]
    exact hfound
  · rename_i hdup
    rw [Option.map_eq_some_iff] at hcreate
    obtain ⟨⟨pid, t⟩, hgen, hcreate⟩ := hcreate
    cases hcreate
    have hfree : sys = false → s.normalCur + 1 < 2 ^ 24 := by
      rintro rfl
      exact hroom (Bool.eq_false_iff.mpr hdup)
    obtain ⟨ht, hmailboxes, hboxes, hconfig, hgiven, hfresh, hnormal⟩ :=
      genPid_numbered h hfree hgen
    have hnumbered := ht.register name hgiven (by rwa [hboxes])
    have hboxes' : (t.register name pid).boxes = s.boxes ++ [t.newMailbox name pid] := by
      rw [register_eq, ← hboxes]
      rfl
    have hmem : t.newMailbox name pid ∈ (t.register name pid).boxes := by
      rw [hboxes']
      exact List.mem_append_right _ (List.mem_singleton_self _)
    have hpid : (UInt32.ofNat pid).toNat = pid := by
      have := ht.sys_le
      have := ht.normal_le
      apply UInt32.toNat_ofNat_of_lt'
      rcases hgiven with hgiven | hgiven <;> (show pid < 2 ^ 32; omega)
    refine ⟨hnumbered, ?_, ?_⟩
    · intro pid' mb hfound
      obtain ⟨hmb, heq⟩ := (h.entries _ _).mp hfound
      apply (hnumbered.entries _ _).mpr
      rw [hboxes']
      exact ⟨List.mem_append_left _ hmb, heq⟩
    · intro _
      refine ⟨_, hboxes', hnumbered.found _ hmem, ?_, ?_⟩
      · intro mb' hmb' heq
        apply hfresh mb' hmb'
        rw [heq]
        exact hpid
      · rintro hsys ⟨-, hle⟩
        have hge := hnormal hsys
        rw [show (t.newMailbox name pid).mbid.pid = UInt32.ofNat pid from rfl, hpid] at hle
        omega

/-- Without room the number is 1000. -/
theorem not_rightPid_of_full (hdup : s.duplicate name = false) (hfull : 2 ^ 24 ≤ s.normalCur + 1) :
    ¬ RightPid s (.create name false) := by
  intro hright
  have hcreate : s.create name false =
      some (({ s with normalCur := 1001 }).register name 1000, true) := by
    simp [create, hdup, genPid_full hfull]
  obtain ⟨mb, hboxes, -, -, hsystem⟩ := (hright _ _ hcreate).2 rfl
  rw [register_eq] at hboxes
  have hmb := List.append_cancel_left hboxes
  rw [List.cons.injEq] at hmb
  apply hsystem rfl
  rw [← hmb.1]
  show systemPid (UInt32.ofNat 1000)
  exact ⟨by decide, by decide⟩

theorem step_numbered {a : Action} (h : Numbered s) (hroom : Room s a) : Numbered (s.step a) := by
  cases a with
  | create name sys =>
      simp only [step]
      split
      · rcases hcreate : s.create name sys with _ | ⟨s', r⟩
        · exact h
        · exact (create_numbered h hroom hcreate).1
      · exact h
  | destroy mb => exact h.destroy.1
  | _ => exact h.of_same (step_boxes rfl)

/-- The numbers are right exactly while there is room. -/
theorem rightPid_iff {a : Action} (h : Numbered s) : RightPid s a ↔ Room s a := by
  cases a with
  | create name sys =>
      constructor
      · intro hright
        cases sys with
        | true => exact trivial
        | false =>
          intro hdup
          by_contra hfull
          exact not_rightPid_of_full hdup (Nat.not_lt.mp hfull) hright
      · intro hroom s' r hcreate
        exact (create_numbered h hroom hcreate).2
  | destroy mb => exact ⟨fun _ => trivial, fun _ => h.destroy.2⟩
  | _ => exact ⟨fun _ => trivial, fun _ => trivial⟩

/-- Along a run from a state with right numbers. -/
theorem along_right_iff (h : Numbered s) (as : List Action) :
    Along step (fun s a => Found s ∧ RightPid s a ∧ Found (s.step a)) s as ↔ Along step Room s as := by
  refine along_congr (I := Numbered) ?_ ?_ h as
  · intro s a h
    constructor
    · rintro ⟨-, hright, -⟩
      exact (rightPid_iff h).mp hright
    · intro hroom
      exact ⟨h.found, (rightPid_iff h).mpr hroom, (step_numbered h hroom).found⟩
  · rintro s a h ⟨-, hright, -⟩
    exact step_numbered h ((rightPid_iff h).mp hright)

/-- **In every run, mailboxes have numbers of their own and are found under them exactly as long
    as `normal_cur_` does not come to `MAX_NORMAL_ID`.** -/
theorem rightPid_along_iff (cfg : Configure) (as : List Action) :
    Along step (fun s a => Found s ∧ RightPid s a ∧ Found (s.step a)) (init cfg) as ↔
      Along step Room (init cfg) as :=
  along_right_iff (init_numbered cfg) as

/-! ### A node with many mailboxes -/

/-- The node is set up and makes `n` mailboxes without a name. -/
def crowd (n : Nat) : List Action :=
  .beginSetup true true [] :: List.replicate n (.create [] false)

/-- Every mailbox takes two numbers. -/
theorem run_crowd (n : Nat) (hn : n ≤ 8383608) :
    (run step (init (clusterA [])) (crowd n)).started = true ∧
      (run step (init (clusterA [])) (crowd n)).normalCur = 10000 + 2 * n := by
  induction n with
  | zero => exact ⟨rfl, rfl⟩
  | succ n ih =>
      obtain ⟨hstarted, hnormal⟩ := ih (by omega)
      have hcrowd : crowd (n + 1) = crowd n ++ [.create [] false] := by
        rw [crowd, List.replicate_succ', crowd, List.cons_append]
      generalize hs : run step (init (clusterA [])) (crowd n) = s at hstarted hnormal
      have hcreate : s.create [] false =
          some (({ s with normalCur := s.normalCur + 2 }).register [] (s.normalCur + 1), true) := by
        simp [create, duplicate, genPid_room (show s.normalCur + 1 < 2 ^ 24 by omega)]
      rw [hcrowd, run_append, hs]
      simp only [run_cons, run_nil, step, hstarted, if_true, hcreate, Option.map_some,
        Option.getD_some]
      rw [register_eq]
      refine ⟨rfl, ?_⟩
      show s.normalCur + 2 = 10000 + 2 * (n + 1)
      omega

/-- The 8383609th of them gets the number 1000. -/
theorem crowd_not_right :
    ¬ Along step (fun s a => Found s ∧ RightPid s a ∧ Found (s.step a)) (init (clusterA []))
      (crowd 8383609) := by
  rw [along_right_iff (init_numbered _)]
  have hcrowd : crowd 8383609 = crowd 8383608 ++ [.create [] false] := by
    rw [crowd, List.replicate_succ', crowd, List.cons_append]
  rw [hcrowd, along_append]
  rintro ⟨-, hroom, -⟩
  obtain ⟨-, hnormal⟩ := run_crowd 8383608 (Nat.le_refl _)
  have hlt := hroom rfl
  rw [hnormal] at hlt
  omega

end Jengine.Cluster.NodeMonitor
