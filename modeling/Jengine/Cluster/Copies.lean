import Jengine.Cluster.Peers

/-!
# The copy of another node's named mailboxes

A node keeps the named mailboxes of a connected node under their qualified
names.  `NodeInv` is what holds of one of two connected nodes, and `Dir` what
holds between the table of one and the copy that the other one has: replaying
the edits that are on their way over the copy gives the table.

This needs that the qualified names are not used for anything else: a local
mailbox with such a name stands in the way of the copy, as an insertion does
not replace what is there, and is removed by an edit of the other node.
-/

namespace Jengine.Cluster

open Jengine.Lib NodeMonitor

variable {cfg : Configure} {peer : UInt8} {s t p q : NodeMonitor} {c d : Nat} {info : NodeInfo}

/-! ### Names -/

/-- The name ends as the qualified names of the peer do. -/
def Reserved (cfg : Configure) (peer : UInt8) (name : Name) : Prop :=
  ∃ info ∈ cfg.findNodeInfoByID peer, (64 :: info.name) <:+ name

instance (cfg : Configure) (peer : UInt8) (name : Name) : Decidable (Reserved cfg peer name) :=
  inferInstanceAs (Decidable (∃ info ∈ cfg.findNodeInfoByID peer, (64 :: info.name) <:+ name))

/-- A name that a node may give to a mailbox. -/
def Proper (cfg : Configure) (peer : UInt8) (name : Name) : Prop :=
  name.length ≤ 65535 ∧ ¬ Reserved cfg peer name

instance (cfg : Configure) (peer : UInt8) (name : Name) : Decidable (Proper cfg peer name) :=
  inferInstanceAs (Decidable (_ ∧ _))

theorem reserved_qualified (hinfo : cfg.findNodeInfoByID peer = some info) (name : Name) :
    Reserved cfg peer (qualified name info) := ⟨info, hinfo, name, rfl⟩

theorem qualified_inj {name name' : Name} (h : qualified name info = qualified name' info) :
    name = name' := List.append_cancel_right h

theorem exists_qualified (hinfo : cfg.findNodeInfoByID peer = some info) {name : Name}
    (h : Reserved cfg peer name) : ∃ y, name = qualified y info := by
  obtain ⟨info', hinfo', y, hy⟩ := h
  rw [hinfo] at hinfo'
  cases hinfo'
  exact ⟨y, hy.symm⟩

/-! ### One node -/

/-- An entry of a node's own. -/
structure Own (cfg : Configure) (peer : UInt8) (name : Name) (mbid : MailboxID) : Prop where
  node : mbid.nodeid = cfg.info.id
  proper : Proper cfg peer name
  pid : mbid.pid.toNat < 2 ^ 24

/-- An entry of the copy. -/
structure Foreign (cfg : Configure) (peer : UInt8) (name : Name) (mbid : MailboxID) : Prop where
  node : mbid.nodeid = peer
  reserved : Reserved cfg peer name

/-- What holds of a node whose end of the connection is `c`. -/
structure NodeInv (cfg : Configure) (peer : UInt8) (s : NodeMonitor) (c : Nat) (up lost : Bool) :
    Prop where
  config : s.config = cfg
  named : ∀ name mbid, s.named.lookup name = some mbid →
    Own cfg peer name mbid ∨ Foreign cfg peer name mbid
  boxes : ∀ mb ∈ s.boxes, Proper cfg peer mb.name
  down : up = false → s.connectors.entries = []
  connect : up = true → (s.conns c).connect = true
  opened : lost = false → up = true ∧ (s.conns c).closed = false
  unknown : up = true → (s.conns c).info = none → s.connectors.entries = []
  known : up = true → ∀ info, (s.conns c).info = some info →
    cfg.findNodeInfoByID peer = some info ∧ s.connectors.entries = [⟨info.id, c⟩]

/-- There is no entry of the peer. -/
def NoEntries (s : NodeMonitor) (peer : UInt8) : Prop :=
  ∀ name mbid, s.named.lookup name = some mbid → mbid.nodeid ≠ peer

/-- The copy of the peer's named mailboxes, under their own names. -/
def view (s : NodeMonitor) (info : NodeInfo) : Name → Option MailboxID :=
  fun name => s.named.lookup (qualified name info)

/-- The local named mailboxes. -/
def locals (s : NodeMonitor) : Name → Option MailboxID := fun name => (localTable s).lookup name

theorem locals_eq (s : NodeMonitor) (name : Name) :
    locals s name = (s.named.lookup name).filter fun mbid => s.config.info.id == mbid.nodeid :=
  Table.lookup_keep_eq _ _ _

namespace NodeInv

variable {up lost : Bool}

/-- When the connection is lost, less is known. -/
theorem mono (h : NodeInv cfg peer s c up lost) : NodeInv cfg peer s c up true := by
  refine ⟨h.config, h.named, h.boxes, h.down, h.connect, ?_, h.unknown, h.known⟩
  intro hfalse
  cases hfalse

/-- A reserved name is one of the copy. -/
theorem foreign (h : NodeInv cfg peer s c up lost) {name : Name} {mbid : MailboxID}
    (hreserved : Reserved cfg peer name) (hlookup : s.named.lookup name = some mbid) :
    mbid.nodeid = peer := by
  rcases h.named name mbid hlookup with hown | hforeign
  · exact absurd hreserved hown.proper.2
  · exact hforeign.node

theorem view_none (h : NodeInv cfg peer s c up lost) (hinfo : cfg.findNodeInfoByID peer = some info)
    (hno : NoEntries s peer) : view s info = fun _ => none := by
  funext name
  rcases hlookup : view s info name with _ | mbid
  · rfl
  · exact absurd (h.foreign (reserved_qualified hinfo name) hlookup) (hno _ mbid hlookup)

end NodeInv

/-! ### An edit by the node -/

/-- The edits that a node makes. -/
def Fits (cfg : Configure) (peer : UInt8) (s : NodeMonitor) : Edit Name MailboxID → Prop
  | .put name mbid => s.named.lookup name = none ∧ Own cfg peer name mbid
  | .del name => Proper cfg peer name

theorem Fits.proper {e : Edit Name MailboxID} (h : Fits cfg peer s e) : Proper cfg peer e.key := by
  cases e with
  | put name mbid => exact h.2.proper
  | del name => exact h

theorem Fits.sent {e : Edit Name MailboxID} (h : Fits cfg peer s e) : Sent cfg (editMessage e) := by
  cases e with
  | put name mbid => exact .put h.2.proper.1 h.2.node h.2.pid
  | del name => exact .del h.1

theorem Fits.editOf {e : Edit Name MailboxID} (h : Fits cfg peer s e) :
    editOf (editMessage e) = some e := by
  cases e with
  | put name mbid => exact editOf_registerMessage h.2.proper.1 h.2.pid
  | del name => exact editOf_unregisterMessage h.1

theorem lookup_edited {e : Edit Name MailboxID} (hedit : EditedBy s (some e) t) (name : Name) :
    t.named.lookup name = e.apply (fun name => s.named.lookup name) name := by
  rw [hedit.named]
  exact Edit.lookup_table s.named e name

/-- The edit is made to the local named mailboxes. -/
theorem locals_edited {e : Edit Name MailboxID} (hconfig : s.config = cfg)
    (hfits : Fits cfg peer s e) (hedit : EditedBy s (some e) t) :
    locals t = e.apply (locals s) := by
  funext name
  rw [locals_eq, lookup_edited hedit, hedit.config]
  cases e with
  | put key mbid =>
      obtain ⟨hnone, hown⟩ := hfits
      have hlocals : locals s key = none := by rw [locals_eq, hnone]; rfl
      simp only [Edit.apply, hnone, hlocals, Option.getD_none]
      split
      · rw [Option.filter_some, hown.node, hconfig, beq_self_eq_true]
        rfl
      · exact (locals_eq s name).symm
  | del key =>
      simp only [Edit.apply]
      split
      · rfl
      · exact (locals_eq s name).symm

/-- The copy is not concerned. -/
theorem lookup_edited_reserved {e : Option (Edit Name MailboxID)}
    (hfits : ∀ e' ∈ e, Fits cfg peer s e') (hedit : EditedBy s e t) {name : Name}
    (hreserved : Reserved cfg peer name) : t.named.lookup name = s.named.lookup name := by
  cases e with
  | none => rw [hedit.named]; rfl
  | some e =>
      rw [lookup_edited hedit, Edit.apply_of_ne]
      rintro rfl
      exact (hfits e rfl).proper.2 hreserved

theorem named_edited {e : Option (Edit Name MailboxID)} (hfits : ∀ e' ∈ e, Fits cfg peer s e')
    (hedit : EditedBy s e t) {name : Name} {mbid : MailboxID}
    (hlookup : t.named.lookup name = some mbid) :
    s.named.lookup name = some mbid ∨ Own cfg peer name mbid := by
  cases e with
  | none =>
      rw [hedit.named] at hlookup
      exact .inl hlookup
  | some e =>
      rw [lookup_edited hedit] at hlookup
      have hfit := hfits e rfl
      cases e with
      | put key mbid' =>
          simp only [Edit.apply, hfit.1, Option.getD_none] at hlookup
          split at hlookup
          · rename_i heq
            cases hlookup
            exact .inr (heq ▸ hfit.2)
          · exact .inl hlookup
      | del key =>
          simp only [Edit.apply] at hlookup
          split at hlookup
          · cases hlookup
          · exact .inl hlookup

/-- The node keeps its invariant. -/
theorem NodeInv.edited {up lost : Bool} {e : Option (Edit Name MailboxID)}
    (h : NodeInv cfg peer s c up lost) (hfits : ∀ e' ∈ e, Fits cfg peer s e')
    (hedit : EditedBy s e t) (hboxes : ∀ mb ∈ t.boxes, Proper cfg peer mb.name) :
    NodeInv cfg peer t c up lost := by
  refine ⟨hedit.config.trans h.config, ?_, hboxes, ?_, ?_, ?_, ?_, ?_⟩
  · intro name mbid hlookup
    rcases named_edited hfits hedit hlookup with hold | hown
    · exact h.named name mbid hold
    · exact .inl hown
  · rw [hedit.connectors]
    exact h.down
  · rw [hedit.conns]
    exact h.connect
  · rw [hedit.conns]
    exact h.opened
  · rw [hedit.conns, hedit.connectors]
    exact h.unknown
  · rw [hedit.conns, hedit.connectors]
    exact h.known

/-! ### An edit of the copy -/

/-- The copy is edited as the peer's table was. -/
theorem view_heard {e : Edit Name MailboxID} (h : Heard s (some (renamed info e)) t) :
    view t info = e.apply (view s info) := by
  funext name
  have hlookup := h.named (qualified name info)
  cases e with
  | put key mbid =>
      simp only [view, hlookup, renamed, Edit.apply]
      by_cases heq : name = key
      · rw [heq, if_pos rfl, if_pos rfl]
      · rw [if_neg heq, if_neg fun hq => heq (qualified_inj hq)]
  | del key =>
      simp only [view, hlookup, renamed, Edit.apply]
      by_cases heq : name = key
      · rw [heq, if_pos rfl, if_pos rfl]
      · rw [if_neg heq, if_neg fun hq => heq (qualified_inj hq)]

/-- An entry after an edit of the copy was there before, or is one of the copy. -/
theorem named_heard {e : Option (Edit Name MailboxID)} {cfg' : Configure}
    (hinfo : cfg.findNodeInfoByID cfg'.info.id = some info)
    (hput : ∀ name mbid, e = some (.put name mbid) → mbid.nodeid = cfg'.info.id)
    (h : Heard s (e.map (renamed info)) t) {name : Name} {mbid : MailboxID}
    (hlookup : t.named.lookup name = some mbid) :
    s.named.lookup name = some mbid ∨ Foreign cfg cfg'.info.id name mbid := by
  rw [h.named] at hlookup
  rcases e with _ | ⟨key, mbid'⟩ | key
  · exact .inl hlookup
  · simp only [Option.map_some, renamed, Edit.apply] at hlookup
    split at hlookup
    · rename_i heq
      subst heq
      rcases hold : s.named.lookup (qualified key info) with _ | old
      · rw [hold] at hlookup
        cases hlookup
        exact .inr ⟨hput key _ rfl, reserved_qualified hinfo key⟩
      · rw [hold] at hlookup
        exact .inl hlookup
    · exact .inl hlookup
  · simp only [Option.map_some, renamed, Edit.apply] at hlookup
    split at hlookup
    · cases hlookup
    · exact .inl hlookup

/-- The local named mailboxes are not concerned. -/
theorem locals_heard {up lost : Bool} {e : Option (Edit Name MailboxID)} {cfg' : Configure}
    (hne : cfg'.info.id ≠ cfg.info.id) (hnode : NodeInv cfg cfg'.info.id s c up lost)
    (hinfo : cfg.findNodeInfoByID cfg'.info.id = some info)
    (hput : ∀ name mbid, e = some (.put name mbid) → mbid.nodeid = cfg'.info.id)
    (h : Heard s (e.map (renamed info)) t) : locals t = locals s := by
  funext name
  rw [locals_eq, locals_eq, h.config, h.named, hnode.config]
  -- what is stored under a reserved name is not local
  have hforeign : ∀ key, (s.named.lookup (qualified key info)).filter
      (fun mbid => cfg.info.id == mbid.nodeid) = none := by
    intro key
    rw [Option.filter_eq_none_iff]
    intro mbid hmem
    rw [hnode.foreign (reserved_qualified hinfo key) hmem, beq_iff_eq]
    exact fun heq => hne heq.symm
  rcases e with _ | ⟨key, mbid⟩ | key
  · rfl
  · simp only [Option.map_some, renamed, Edit.apply]
    split
    · rename_i heq
      subst heq
      rw [hforeign key]
      rcases hold : s.named.lookup (qualified key info) with _ | old
      · rw [Option.getD_none, Option.filter_eq_none_iff]
        intro mbid' hmem
        cases hmem
        rw [hput key mbid rfl, beq_iff_eq]
        exact fun heq => hne heq.symm
      · rw [Option.getD_some, ← hold]
        exact hforeign key
    · rfl
  · simp only [Option.map_some, renamed, Edit.apply]
    split
    · rename_i heq
      subst heq
      exact (hforeign key).symm
    · rfl

/-- A message registers mailboxes of the node it is from. -/
theorem nodeid_of_sent {cfg' : Configure} {msg : Message} (hsent : Sent cfg' msg) {name : Name}
    {mbid : MailboxID} (h : editOf msg = some (.put name mbid)) : mbid.nodeid = cfg'.info.id := by
  cases hsent with
  | auth =>
      rw [editOf_authMessage] at h
      cases h
  | put hname hnode hpid =>
      rw [editOf_registerMessage hname hpid] at h
      cases h
      exact hnode
  | del hname =>
      rw [editOf_unregisterMessage hname] at h
      cases h
  | cast hvalid =>
      rw [editOf_cast hvalid] at h
      cases h

theorem NodeInv.heard {up lost : Bool} {e : Option (Edit Name MailboxID)} {cfg' : Configure}
    (hnode : NodeInv cfg cfg'.info.id s c up lost)
    (hinfo : cfg.findNodeInfoByID cfg'.info.id = some info)
    (hput : ∀ name mbid, e = some (.put name mbid) → mbid.nodeid = cfg'.info.id)
    (h : Heard s (e.map (renamed info)) t) : NodeInv cfg cfg'.info.id t c up lost := by
  refine ⟨h.config.trans hnode.config, ?_, ?_, ?_, ?_, ?_, ?_, ?_⟩
  · intro name mbid hlookup
    rcases named_heard hinfo hput h hlookup with hold | hforeign
    · exact hnode.named name mbid hold
    · exact .inr hforeign
  · rw [h.boxes]
    exact hnode.boxes
  · rw [h.connectors]
    exact hnode.down
  · rw [h.conns]
    exact hnode.connect
  · rw [h.conns]
    exact hnode.opened
  · rw [h.conns, h.connectors]
    exact hnode.unknown
  · rw [h.conns, h.connectors]
    exact hnode.known

/-! ### From one node to the other -/

/-- What holds between node `p`, whose end is `c`, and node `q`, whose end is `d` and which has
    not handled `queue`. -/
structure Dir (p q : NodeMonitor) (c d : Nat) (queue : List Message) (up lost : Bool) : Prop where
  sent : ∀ msg ∈ queue, Sent p.config msg
  gone : up = false → NoEntries q p.config.info.id
  unknown : up = true → (q.conns d).info = none → NoEntries q p.config.info.id ∧
    ((q.conns d).closed = true ∨ (lost = true ∧ queue = []) ∨
      ∃ rest, queue = authMessage p.config :: rest)
  silent : lost = false → (p.conns c).info = none →
    NoEntries q p.config.info.id ∧ queue.filterMap editOf = []
  synced : lost = false → (p.conns c).info ≠ none →
    ∀ info, q.config.findNodeInfoByID p.config.info.id = some info →
      replay (view q info) (queue.filterMap editOf) = locals p

namespace Dir

variable {queue : List Message} {up lost : Bool}

/-- When the connection is lost, some first messages may still be handled. -/
theorem lose (h : Dir p q c d queue up lost) (n : Nat) : Dir p q c d (queue.take n) up true := by
  refine ⟨?_, h.gone, ?_, ?_, ?_⟩
  · intro msg hmem
    exact h.sent msg (List.mem_of_mem_take hmem)
  · intro hup hinfo
    obtain ⟨hno, hqueue⟩ := h.unknown hup hinfo
    refine ⟨hno, ?_⟩
    rcases hqueue with hclosed | ⟨-, hnil⟩ | ⟨rest, hcons⟩
    · exact .inl hclosed
    · rw [hnil, List.take_nil]
      exact .inr (.inl ⟨rfl, rfl⟩)
    · rw [hcons]
      cases n with
      | zero => exact .inr (.inl ⟨rfl, rfl⟩)
      | succ n => exact .inr (.inr ⟨rest.take n, rfl⟩)
  · intro hfalse
    cases hfalse
  · intro hfalse
    cases hfalse

theorem mono (h : Dir p q c d queue up lost) : Dir p q c d queue up true := by
  have hlose := h.lose queue.length
  rwa [List.take_length] at hlose

/-- The sender changes, and sends something that keeps the copy right. -/
theorem send {p' : NodeMonitor} {msgs : List Message} (h : Dir p q c d queue up lost)
    (hconfig : p'.config = p.config) (hsent : lost = false → ∀ msg ∈ msgs, Sent p.config msg)
    (hsilent : lost = false → (p'.conns c).info = none →
      (p.conns c).info = none ∧ msgs.filterMap editOf = [])
    (hsynced : lost = false → (p'.conns c).info ≠ none →
      ∀ info, q.config.findNodeInfoByID p.config.info.id = some info →
        replay (view q info) (queue.filterMap editOf ++ msgs.filterMap editOf) = locals p') :
    Dir p' q c d (if lost then queue else queue ++ msgs) up lost := by
  cases lost with
  | true =>
      refine ⟨?_, ?_, ?_, ?_, ?_⟩
      · rw [hconfig]
        exact h.sent
      · rw [hconfig]
        exact h.gone
      · rw [hconfig]
        exact h.unknown
      · intro hfalse
        cases hfalse
      · intro hfalse
        cases hfalse
  | false =>
      refine ⟨?_, ?_, ?_, ?_, ?_⟩
      · intro msg hmem
        rw [hconfig]
        rcases List.mem_append.mp hmem with hmem | hmem
        · exact h.sent msg hmem
        · exact hsent rfl msg hmem
      · rw [hconfig]
        exact h.gone
      · rw [hconfig]
        intro hup hinfo
        obtain ⟨hno, hqueue⟩ := h.unknown hup hinfo
        refine ⟨hno, ?_⟩
        rcases hqueue with hclosed | ⟨hlost, -⟩ | ⟨rest, hcons⟩
        · exact .inl hclosed
        · cases hlost
        · exact .inr (.inr ⟨rest ++ msgs, by rw [hcons]; rfl⟩)
      · rw [hconfig]
        intro hlost hinfo
        obtain ⟨hinfo', hedits⟩ := hsilent hlost hinfo
        obtain ⟨hno, hqueue⟩ := h.silent hlost hinfo'
        refine ⟨hno, ?_⟩
        show (queue ++ msgs).filterMap editOf = []
        rw [List.filterMap_append, hqueue, hedits]
        rfl
      · rw [hconfig]
        intro hlost hinfo info hfind
        show replay _ ((queue ++ msgs).filterMap editOf) = _
        rw [List.filterMap_append]
        exact hsynced hlost hinfo info hfind

/-- The receiver changes, and neither the copy nor its end of the connection. -/
theorem receiver {q' : NodeMonitor} (h : Dir p q c d queue up lost) (hconfig : q'.config = q.config)
    (hconns : q'.conns = q.conns)
    (hentries : NoEntries q p.config.info.id → NoEntries q' p.config.info.id)
    (hview : ∀ info, q.config.findNodeInfoByID p.config.info.id = some info →
      view q' info = view q info) : Dir p q' c d queue up lost := by
  refine ⟨h.sent, fun hup => hentries (h.gone hup), ?_, ?_, ?_⟩
  · rw [hconns]
    intro hup hinfo
    obtain ⟨hno, hqueue⟩ := h.unknown hup hinfo
    exact ⟨hentries hno, hqueue⟩
  · intro hlost hinfo
    obtain ⟨hno, hqueue⟩ := h.silent hlost hinfo
    exact ⟨hentries hno, hqueue⟩
  · rw [hconfig]
    intro hlost hinfo info hfind
    rw [hview info hfind]
    exact h.synced hlost hinfo info hfind

end Dir

end Jengine.Cluster
