import Jengine.Cluster.Handlers
import Jengine.Lib.Replay

/-!
# The registry of mailboxes

Creating and destroying a mailbox with a name is one edit of the table of named
mailboxes, with one event and one message to every connected node.  A creation
that is refused because the name is taken is such an edit too: the mailbox that
was never registered is deleted, and its destructor removes the name.
-/

namespace Jengine.Cluster.NodeMonitor

open Jengine.Lib

variable {s s' : NodeMonitor}

/-- The message by which other nodes learn of an edit. -/
def editMessage : Edit Name MailboxID → Message
  | .put name mbid => registerMessage name mbid
  | .del name => unregisterMessage name

/-- The event by which the node itself learns of an edit. -/
def editEvent : Edit Name MailboxID → Event
  | .put name mbid => .mailboxUp name mbid
  | .del name => .mailboxDown name

/-- What an edit puts out. -/
def editOut (s : NodeMonitor) : Option (Edit Name MailboxID) → List Event
  | none => []
  | some e => editEvent e :: s.casts (editMessage e)

/-- What an edit does to the named mailboxes. -/
def editNamed (s : NodeMonitor) : Option (Edit Name MailboxID) → Table Name MailboxID
  | none => s.named
  | some e => e.table s.named

/-- From `s` to `s'` the node has made an edit, or none when the mailbox has no name. -/
structure EditedBy (s : NodeMonitor) (e : Option (Edit Name MailboxID)) (s' : NodeMonitor) :
    Prop where
  config : s'.config = s.config
  conns : s'.conns = s.conns
  connectors : s'.connectors = s.connectors
  named : s'.named = s.editNamed e
  out : s'.out = s.out ++ s.editOut e

/-- An edit after a change that was none. -/
theorem EditedBy.trans {t : NodeMonitor} {e : Option (Edit Name MailboxID)}
    (h : EditedBy s none t) (h' : EditedBy t e s') : EditedBy s e s' := by
  have hnamed : t.named = s.named := h.named
  have hout : t.out = s.out := h.out.trans (List.append_nil _)
  refine ⟨h'.config.trans h.config, h'.conns.trans h.conns, h'.connectors.trans h.connectors,
    h'.named.trans ?_, h'.out.trans ?_⟩
  · cases e with
    | none => exact hnamed
    | some e => exact congrArg (Edit.table · e) hnamed
  · rw [hout]
    cases e with
    | none => rfl
    | some e => simp only [editOut, casts, sends, h.conns, h.connectors]

theorem unRegister_edited (s : NodeMonitor) (mb : Mailbox) :
    EditedBy s (if mb.name = [] then none else some (.del mb.name)) (s.unRegister mb) := by
  rw [unRegister_eq]
  split
  · rename_i hname
    refine ⟨rfl, rfl, rfl, rfl, ?_⟩
    rw [farewell, if_pos hname]
    rfl
  · rename_i hname
    refine ⟨rfl, rfl, rfl, rfl, ?_⟩
    rw [farewell, if_neg hname]
    rfl

theorem register_edited (s : NodeMonitor) (name : Name) (pid : Nat) :
    EditedBy s (if name = [] then none else some (.put name (s.newMailbox name pid).mbid))
      (s.register name pid) := by
  rw [register_eq]
  split
  · rename_i hname
    refine ⟨rfl, rfl, rfl, rfl, ?_⟩
    rw [greeting, if_pos hname]
    rfl
  · rename_i hname
    refine ⟨rfl, rfl, rfl, rfl, ?_⟩
    rw [greeting, if_neg hname]
    rfl

/-- A number that is given to a mailbox has 24 bits. -/
theorem genPid_lt {sys : Bool} {pid : Nat} (h : s.genPid sys = some (pid, s')) : pid < 2 ^ 24 := by
  unfold genPid at h
  split at h
  · split at h
    · cases h
      omega
    · cases h
  · simp only [Option.some.injEq, Prod.mk.injEq] at h
    rw [← h.1]
    split <;> omega

/-- Numbering a mailbox changes neither the connectors nor the named mailboxes. -/
theorem genPid_edited {sys : Bool} {pid : Nat} (h : s.genPid sys = some (pid, s')) :
    EditedBy s none s' ∧ s'.boxes = s.boxes := by
  unfold genPid at h
  split at h
  · split at h
    · cases h
      exact ⟨⟨rfl, rfl, rfl, rfl, (List.append_nil _).symm⟩, rfl⟩
    · cases h
  · cases h
    exact ⟨⟨rfl, rfl, rfl, rfl, (List.append_nil _).symm⟩, rfl⟩

/-- The edit that creating a mailbox makes. -/
inductive Creates (s : NodeMonitor) (name : Name) : Option (Edit Name MailboxID) → Bool → Prop
  | unnamed : name = [] → Creates s name none true
  | created (mbid : MailboxID) : name ≠ [] → s.named.lookup name = none →
      mbid.nodeid = s.config.info.id → mbid.pid.toNat < 2 ^ 24 →
      Creates s name (some (.put name mbid)) true
  | refused : name ≠ [] → (s.named.lookup name).isSome = true →
      Creates s name (some (.del name)) false

theorem create_edited {name : Name} {sys r : Bool} (h : s.create name sys = some (s', r)) :
    ∃ e, Creates s name e r ∧ EditedBy s e s' ∧
      ∀ mb ∈ s'.boxes, mb ∈ s.boxes ∨ mb.name = name := by
  unfold create at h
  split at h
  · rename_i hdup
    cases h
    rw [duplicate, Bool.and_eq_true, bne_iff_ne] at hdup
    have hedit := unRegister_edited s ⟨name, .nullID⟩
    rw [if_neg hdup.1] at hedit
    refine ⟨_, .refused hdup.1 hdup.2, hedit, ?_⟩
    intro mb hmem
    rw [unRegister_eq] at hmem
    exact .inl hmem
  · rename_i hdup
    rw [Option.map_eq_some_iff] at h
    obtain ⟨⟨pid, t⟩, hgen, h⟩ := h
    cases h
    obtain ⟨hgenEdit, hboxes⟩ := genPid_edited hgen
    have hlt := genPid_lt hgen
    refine ⟨_, ?_, hgenEdit.trans (register_edited t name pid), ?_⟩
    · split
      · rename_i hname
        exact .unnamed hname
      · rename_i hname
        have hnone : s.named.lookup name = none := by
          simpa [duplicate, hname] using hdup
        refine .created _ hname hnone (congrArg (fun cfg => cfg.info.id) hgenEdit.config) ?_
        show (UInt32.ofNat pid).toNat < 2 ^ 24
        rw [UInt32.toNat_ofNat_of_lt' (Nat.lt_trans hlt (by decide))]
        exact hlt
    · intro mb hmem
      rw [register_eq] at hmem
      rcases List.mem_append.mp hmem with hmem | hmem
      · rw [hboxes] at hmem
        exact .inl hmem
      · rw [List.mem_singleton.mp hmem]
        exact .inr rfl

/-- Destroying a mailbox that is alive removes its name. -/
theorem destroy_edited (s : NodeMonitor) (mb : Mailbox) :
    ∃ e, EditedBy s e (s.destroy mb) ∧ (e = none ∨ (mb ∈ s.boxes ∧ e = some (.del mb.name))) ∧
      ∀ mb' ∈ (s.destroy mb).boxes, mb' ∈ s.boxes := by
  unfold destroy
  split
  · rename_i hmem
    have hedit := unRegister_edited s mb
    refine ⟨_, ⟨hedit.config, hedit.conns, hedit.connectors, hedit.named, hedit.out⟩, ?_, ?_⟩
    · split
      · exact .inl rfl
      · exact .inr ⟨hmem, rfl⟩
    · intro mb' hmem'
      exact List.mem_of_mem_erase hmem'
  · exact ⟨none, ⟨rfl, rfl, rfl, rfl, (List.append_nil _).symm⟩, .inl rfl, fun _ => id⟩

/-! ### A creation that is refused -/

/-- The registry is as it was, no mailbox went down, and no node was told that one did. -/
def LeftAlone (s s' : NodeMonitor) : Prop :=
  s'.named = s.named ∧ s'.mailboxes = s.mailboxes ∧ ∃ es, s'.out = s.out ++ es ∧
    (∀ name, Event.mailboxDown name ∉ es) ∧ ∀ c name, Event.send c (unregisterMessage name) ∉ es

/-- **Whenever `Create` returns no mailbox, the mailbox that has the name loses it, goes down,
    and every connected node is told so.** -/
theorem not_leftAlone_of_refused (s s' : NodeMonitor) (name : Name) (sys : Bool)
    (h : s.create name sys = some (s', false)) :
    (s.named.lookup name).isSome = true ∧ s'.named.lookup name = none ∧
      s'.out = s.out ++ .mailboxDown name :: s.casts (unregisterMessage name) ∧
      ¬ LeftAlone s s' := by
  obtain ⟨e, hcreates, hedit, -⟩ := create_edited h
  cases hcreates with
  | refused hname hsome =>
    have hnone : s'.named.lookup name = none := by
      rw [hedit.named]
      exact AList.lookup_erase name s.named
    refine ⟨hsome, hnone, hedit.out, ?_⟩
    rintro ⟨hnamed, -⟩
    rw [hnamed] at hnone
    rw [hnone] at hsome
    cases hsome

/-- Node `a` has a mailbox named `m`. -/
def inhabited : NodeMonitor :=
  run step (init (clusterA [])) [.beginSetup true true [], .create [109] false]

theorem not_leftAlone_inhabited : ∃ s', inhabited.create [109] false = some (s', false) ∧
    s'.named.lookup [109] = none :=
  ⟨_, rfl, (not_leftAlone_of_refused inhabited _ [109] false rfl).2.1⟩

/-- Creating `m` again returns no mailbox, and the first one has lost its name. -/
theorem refused_not_leftAlone :
    ∃ s', inhabited.create [109] false = some (s', false) ∧ ¬ LeftAlone inhabited s' := by
  refine ⟨_, rfl, ?_⟩
  rintro ⟨hnamed, -⟩
  have hlookup := congrArg (AList.lookup [109]) hnamed
  revert hlookup
  decide

end Jengine.Cluster.NodeMonitor
