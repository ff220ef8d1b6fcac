import Jengine.Cluster.World

/-!
# What a peer hears

The node's side of the connection: which edit a message stands for, what
handling it does to the named mailboxes, and what a node sends when it edits
its own, when it authenticates its peer, and when an end of the connection is
made or closed for good.
-/

namespace Jengine.Cluster

open Jengine.Lib NodeMonitor

/-! ### Messages as edits -/

/-- What is read from a message that registers a named mailbox. -/
def readRegister : Reader (Name × MailboxID) := do
  let name ← Reader.readString
  let mbid ← Reader.readMailboxID
  return (name, mbid)

/-- The edit that a message stands for. -/
def editOf (msg : Message) : Option (Edit Name MailboxID) :=
  if msg.wire.receiver.valid then none
  else if msg.code = internalRegisterNamedMailbox then
    (readRegister msg.payload).map fun r => .put r.1.1 r.1.2
  else if msg.code = internalUnregisterNamedMailbox then
    (Reader.readString msg.payload).map fun r => .del r.1
  else none

/-- Messages that a node sends: its authentication, edits of its named mailboxes, and messages
    from mailbox to mailbox. -/
inductive Sent (cfg : Configure) : Message → Prop
  | auth : Sent cfg (authMessage cfg)
  | put {name : Name} {mbid : MailboxID} : name.length ≤ 65535 → mbid.nodeid = cfg.info.id →
      mbid.pid.toNat < 2 ^ 24 → Sent cfg (registerMessage name mbid)
  | del {name : Name} : name.length ≤ 65535 → Sent cfg (unregisterMessage name)
  | cast {msg : Message} : msg.wire.receiver.valid = true → Sent cfg msg

theorem parse_nullID : MailboxID.parse MailboxID.nullID.valueID = .nullID := by decide

@[simp] theorem wire_internalMessage (code : UInt16) (payload : List UInt8) :
    (internalMessage code payload).wire = internalMessage code payload := by
  simp only [Message.wire, internalMessage, parse_nullID]

@[simp] theorem code_internalMessage (code : UInt16) (payload : List UInt8) :
    (internalMessage code payload).code = code := rfl

@[simp] theorem payload_internalMessage (code : UInt16) (payload : List UInt8) :
    (internalMessage code payload).payload = payload := rfl

@[simp] theorem valid_internalMessage (code : UInt16) (payload : List UInt8) :
    (internalMessage code payload).receiver.valid = false := rfl

theorem readRegister_encode {name : Name} {mbid : MailboxID} (hname : name.length ≤ 65535)
    (hpid : mbid.pid.toNat < 2 ^ 24) :
    readRegister (encodeString name ++ encodeMailboxID mbid) = some ((name, mbid), []) := by
  have hmbid := Reader.readMailboxID_encode mbid []
  rw [List.append_nil, MailboxID.parse_valueID hpid] at hmbid
  show ((Reader.readString (encodeString name ++ encodeMailboxID mbid)).bind fun r =>
    (Reader.readMailboxID r.2).bind fun r' => some ((r.1, r'.1), r'.2)) = _
  rw [Reader.readString_encodeString hname, Option.bind_some, hmbid]
  rfl

theorem readString_encode {name : Name} (hname : name.length ≤ 65535) :
    Reader.readString (encodeString name) = some (name, []) := by
  have hread := Reader.readString_encodeString hname []
  rwa [List.append_nil] at hread

theorem editOf_registerMessage {name : Name} {mbid : MailboxID} (hname : name.length ≤ 65535)
    (hpid : mbid.pid.toNat < 2 ^ 24) : editOf (registerMessage name mbid) = some (.put name mbid) := by
  have hread := readRegister_encode hname hpid
  rw [editOf, registerMessage, wire_internalMessage, valid_internalMessage]
  show (readRegister (encodeString name ++ encodeMailboxID mbid)).map _ = _
  rw [hread]
  rfl

theorem editOf_unregisterMessage {name : Name} (hname : name.length ≤ 65535) :
    editOf (unregisterMessage name) = some (.del name) := by
  rw [editOf, unregisterMessage, wire_internalMessage, valid_internalMessage]
  show (Reader.readString (encodeString name)).map _ = _
  rw [readString_encode hname]
  rfl

theorem editOf_authMessage (cfg : Configure) : editOf (authMessage cfg) = none := by
  rw [editOf, authMessage, wire_internalMessage, valid_internalMessage]
  rfl

theorem editOf_cast {msg : Message} (h : msg.wire.receiver.valid = true) : editOf msg = none :=
  if_pos h

/-! ### Handling an edit -/

variable {s t : NodeMonitor} {c : Nat} {info : NodeInfo}

/-- The edit of the copy, under the qualified name. -/
def renamed (info : NodeInfo) : Edit Name MailboxID → Edit Name MailboxID
  | .put name mbid => .put (qualified name info) mbid
  | .del name => .del (qualified name info)

/-- From `s` to `t` the copy has been edited and nothing was sent. -/
structure Heard (s : NodeMonitor) (e : Option (Edit Name MailboxID)) (t : NodeMonitor) : Prop where
  config : t.config = s.config
  conns : t.conns = s.conns
  connectors : t.connectors = s.connectors
  boxes : t.boxes = s.boxes
  named : ∀ name, t.named.lookup name =
    match e with
    | none => s.named.lookup name
    | some e => e.apply (fun name => s.named.lookup name) name
  sent : ∀ c, sentBy s t c = []

theorem sentBy_append {es : List Event} (hout : t.out = s.out ++ es) (c : Nat) :
    sentBy s t c = es.filterMap (sentOver c) := by
  rw [sentBy, hout, List.drop_left]

/-- An event that is no message sends nothing. -/
theorem sentBy_event {e : Event} (hout : t.out = s.out ++ [e]) (he : ∀ c, sentOver c e = none)
    (c : Nat) : sentBy s t c = [] := by
  rw [sentBy_append hout, List.filterMap_cons, he]
  rfl

theorem heard_refl (s : NodeMonitor) : Heard s none s :=
  ⟨rfl, rfl, rfl, rfl, fun _ => rfl, fun c => sentBy_append (List.append_nil _).symm c⟩

/-- A message from an authenticated peer edits the copy. -/
theorem handleMessage_heard (hinfo : (s.conns c).info = some info) {cfg : Configure} {msg : Message}
    (hsent : Sent cfg msg) :
    Heard s ((editOf msg).map (renamed info)) (s.handleMessage c msg.wire) := by
  have hauth : (s.conns c).authed = true := by rw [Connector.authed, hinfo]; rfl
  have hroute : ∀ msg, s.handleMessage c msg = s.onConnectorReceiveMessage c msg := by
    intro msg
    simp [handleMessage, hauth]
  rw [hroute]
  cases hsent with
  | auth =>
      rw [editOf_authMessage]
      have hsame : s.onConnectorReceiveMessage c (authMessage cfg).wire = s := by
        simp only [onConnectorReceiveMessage, authMessage, wire_internalMessage,
          valid_internalMessage, hinfo]
        rfl
      rw [hsame]
      exact heard_refl s
  | @put name mbid hname hnode hpid =>
      rw [editOf_registerMessage hname hpid]
      have hread := readRegister_encode hname hpid
      have hup : s.onConnectorReceiveMessage c (registerMessage name mbid).wire =
          s.onNamedMailboxUp (qualified name info) mbid := by
        simp only [onConnectorReceiveMessage, registerMessage, wire_internalMessage,
          valid_internalMessage, code_internalMessage, payload_internalMessage, hinfo,
          Bool.not_false, if_true]
        unfold readRegister at hread
        rw [hread]
      rw [hup]
      refine ⟨rfl, rfl, rfl, rfl, ?_, sentBy_event rfl fun _ => rfl⟩
      intro key
      exact Table.lookup_emplace s.named _ _ key
  | @del name hname =>
      rw [editOf_unregisterMessage hname]
      have hdown : s.onConnectorReceiveMessage c (unregisterMessage name).wire =
          if (s.named.lookup (qualified name info)).isSome then
            emit { s with named := s.named.erase (qualified name info) }
              (.mailboxDown (qualified name info))
          else s := by
        have hcode : internalUnregisterNamedMailbox ≠ internalRegisterNamedMailbox := by decide
        simp only [onConnectorReceiveMessage, unregisterMessage, wire_internalMessage,
          valid_internalMessage, code_internalMessage, payload_internalMessage, hinfo,
          Bool.not_false, if_true, if_neg hcode, readString_encode hname]
      rw [hdown]
      split
      · refine ⟨rfl, rfl, rfl, rfl, ?_, sentBy_event rfl fun _ => rfl⟩
        intro key
        exact Table.lookup_erase_eq s.named _ key
      · rename_i hnone
        refine ⟨rfl, rfl, rfl, rfl, ?_, (heard_refl s).sent⟩
        intro key
        show s.named.lookup key = if key = qualified name info then none else s.named.lookup key
        split
        · rename_i heq
          rw [heq]
          simpa using hnone
        · rfl
  | cast hvalid =>
      rw [editOf_cast hvalid]
      simp only [onConnectorReceiveMessage, hvalid]
      rcases s.mailboxes.lookup msg.wire.receiver.pid with _ | mb
      · exact heard_refl s
      · exact ⟨rfl, rfl, rfl, rfl, fun _ => rfl, sentBy_event rfl fun _ => rfl⟩

/-! ### Authentication -/

theorem readByte_toLE (v : UInt8) (rest : List UInt8) :
    Reader.readByte (toLE 1 v.toNat ++ rest) = some (v, rest) := by
  show ((Reader.readInt 1 (toLE 1 v.toNat ++ rest)).bind fun p => some (UInt8.ofNat p.1, p.2)) = _
  rw [Reader.readInt_toLE v.toNat_lt]
  simp

/-- A node authenticates itself with its own id. -/
theorem readAuth_nodeid {cfg cfg' : Configure} {nodeid : UInt8} {passed : Bool} {rest : List UInt8}
    (h : readAuth cfg (authMessage cfg').payload = some ((nodeid, passed), rest)) :
    nodeid = cfg'.info.id := by
  have hpayload : (authMessage cfg').payload = toLE 1 cfg'.info.id.toNat ++
      (toLE 2 (UInt16.ofNat cfg'.cookies.length).toNat ++ cfg'.cookies.flatMap encodeString) :=
    List.append_assoc ..
  have hread : ∀ bs, readAuth cfg bs = (Reader.readByte bs).bind fun p =>
      (Reader.readUShort p.2).bind fun q =>
        (readCookies cfg q.1.toNat q.2).bind fun r => some ((p.1, r.1), r.2) := fun _ => rfl
  rw [hpayload, hread, readByte_toLE, Option.bind_some, Option.bind_eq_some_iff] at h
  obtain ⟨q, -, h⟩ := h
  rw [Option.bind_eq_some_iff] at h
  obtain ⟨r, -, h⟩ := h
  cases h
  rfl

/-- The authentication of a peer is accepted, or its connection is closed. -/
theorem handleMessage_auth (hinfo : (s.conns c).info = none) (cfg : Configure) :
    (∃ info, s.config.findNodeInfoByID cfg.info.id = some info ∧
      s.handleMessage c (authMessage cfg).wire = s.authenticate c info) ∨
      s.handleMessage c (authMessage cfg).wire = s.close c := by
  have hauth : (s.conns c).authed = false := by rw [Connector.authed, hinfo]; rfl
  have hroute : s.handleMessage c (authMessage cfg).wire =
      s.handleInternalMessage c (authMessage cfg) := by
    rw [authMessage, wire_internalMessage]
    simp only [handleMessage, valid_internalMessage, hauth]
    rfl
  have hcode : (authMessage cfg).code = internalAuth := rfl
  rw [hroute, handleInternalMessage]
  simp only [hcode, if_true]
  rcases hread : readAuth s.config (authMessage cfg).payload with _ | ⟨⟨nodeid, passed⟩, rest⟩
  · exact .inr rfl
  · have hid := readAuth_nodeid hread
    subst hid
    cases passed with
    | false => exact .inr rfl
    | true =>
        rcases hfind : s.config.findNodeInfoByID cfg.info.id with _ | info
        · right
          simp [hfind]
        · left
          refine ⟨info, rfl, ?_⟩
          simp [hfind, authenticate]

/-- The registry is the same. -/
structure SameNames (s t : NodeMonitor) : Prop where
  config : t.config = s.config
  named : t.named = s.named
  boxes : t.boxes = s.boxes

theorem SameNames.trans {u : NodeMonitor} (h : SameNames s t) (h' : SameNames t u) :
    SameNames s u :=
  ⟨h'.config.trans h.config, h'.named.trans h.named, h'.boxes.trans h.boxes⟩

theorem checkIfAllSetup_names (s : NodeMonitor) : SameNames s s.checkIfAllSetup := by
  unfold checkIfAllSetup
  split <;> exact ⟨rfl, rfl, rfl⟩

theorem checkIfAllRollback_names (s : NodeMonitor) : SameNames s s.checkIfAllRollback := by
  unfold checkIfAllRollback
  split <;> exact ⟨rfl, rfl, rfl⟩

theorem checkIfAllCleanup_names (s : NodeMonitor) (quiet : Bool) :
    SameNames s (s.checkIfAllCleanup quiet) := by
  unfold checkIfAllCleanup
  split <;> exact ⟨rfl, rfl, rfl⟩

/-- The local entries of the named mailboxes. -/
def localTable (s : NodeMonitor) : Table Name MailboxID :=
  Table.keep s.named fun mbid => s.isLocalMailbox mbid

theorem dump_sent (hconnect : (s.conns c).connect = true) (hclosed : (s.conns c).closed = false) :
    (s.dump c).filterMap (sentOver c) =
      (localTable s).entries.map fun e => registerMessage e.1 e.2 := by
  have hsends : ∀ msg, s.sends c msg = [.send c msg] := by
    intro msg
    rw [sends, hconnect, hclosed]
    rfl
  unfold dump localTable Table.keep
  simp only [hsends]
  induction s.named.entries with
  | nil => rfl
  | cons e l ih =>
    rw [List.flatMap_cons, List.filterMap_append, ih, List.filter_cons]
    cases s.isLocalMailbox e.2 with
    | false => rfl
    | true => simp [sentOver]

/-- A peer that is authenticated is known by its id, and is sent all local named mailboxes. -/
structure Welcomed (s : NodeMonitor) (c : Nat) (info : NodeInfo) (t : NodeMonitor) : Prop where
  names : SameNames s t
  conns : t.conns = Function.update s.conns c { s.conns c with info := some info }
  connectors : t.connectors.entries = [⟨info.id, c⟩]
  sent : sentBy s t c = (localTable s).entries.map fun e => registerMessage e.1 e.2

theorem authenticate_welcomed (hempty : s.connectors.entries = [])
    (hconnect : (s.conns c).connect = true) (hclosed : (s.conns c).closed = false)
    (info : NodeInfo) : Welcomed s c info (s.authenticate c info) := by
  have hnew : info.id ∉ s.connectors := by
    rw [← AList.lookup_eq_none]
    exact Table.values_eq_nil.mp hempty info.id
  let u := (s.identify c info).link c info
  have hcheck : u.checkIfAllSetup.conns = u.conns ∧
      u.checkIfAllSetup.connectors = u.connectors ∧
      ∃ es, u.checkIfAllSetup.out = u.out ++ es ∧ es.filterMap (sentOver c) = [] := by
    unfold checkIfAllSetup
    split
    · exact ⟨rfl, rfl, _, rfl, rfl⟩
    · exact ⟨rfl, rfl, [], (List.append_nil _).symm, rfl⟩
  obtain ⟨hconns, hconnectors, es, hout, hes⟩ := hcheck
  have hlink : SameNames s u := ⟨rfl, rfl, rfl⟩
  have hnames := hlink.trans (checkIfAllSetup_names u)
  have hconn : (u.checkIfAllSetup.conns c) = { s.conns c with info := some info } := by
    rw [hconns]
    exact setConn_self s c _
  rw [authenticate_eq, if_neg hnew, onNodeUp_eq]
  refine ⟨⟨hnames.config, hnames.named, hnames.boxes⟩, hconns, ?_, ?_⟩
  · rw [hconnectors]
    show (Table.emplace s.connectors info.id c).entries = _
    rw [Table.emplace, if_neg hnew, AList.entries_insert_of_notMem hnew, hempty]
  · have hsent : u.checkIfAllSetup.out ++ u.checkIfAllSetup.dump c ++ [.nodeUp info.id] =
        s.out ++ ([.authed c info.id] ++ es ++ u.checkIfAllSetup.dump c ++ [.nodeUp info.id]) := by
      rw [hout]
      show s.out ++ [.authed c info.id] ++ es ++ _ ++ _ = _
      simp only [List.append_assoc]
    have hdump := dump_sent (s := u.checkIfAllSetup) (c := c) (by rw [hconn]; exact hconnect)
      (by rw [hconn]; exact hclosed)
    rw [sentBy_append hsent]
    simp only [List.filterMap_append, hes, hdump, List.append_nil]
    unfold localTable isLocalMailbox
    rw [hnames.named, hnames.config]
    exact List.append_nil _

/-! ### The ends of a connection -/

/-- A new end of a connection: the peer is not known yet, and is sent the authentication. -/
theorem joined_spec (s : NodeMonitor) (required : Bool) :
    SameNames s (World.joined s required) ∧
      (World.joined s required).connectors = s.connectors ∧
      (World.joined s required).conns s.next = { Connector.new required with connect := true } ∧
      sentBy s (World.joined s required) s.next = [authMessage s.config] := by
  have hconn : ((s.enter required).setConn s.next
      { (s.enter required).conns s.next with connect := true, pending := false }).conns s.next =
        { Connector.new required with connect := true } := by
    rw [setConn_self]
    simp [enter, setConn, Connector.new]
  have hsends : ((s.enter required).setConn s.next
      { (s.enter required).conns s.next with connect := true, pending := false }).sends s.next
        (authMessage s.config) = [.send s.next (authMessage s.config)] := by
    rw [sends, hconn]
    rfl
  unfold World.joined
  rw [onConnect_eq, sendMessage_eq]
  refine ⟨⟨rfl, rfl, rfl⟩, rfl, hconn, ?_⟩
  have hout := congrArg (s.out ++ ·) hsends
  rw [sentBy_append hout]
  simp [sentOver]

/-- After its end is closed for good, a node knows no peer and has no copy. -/
theorem parted_spec (hconnect : (s.conns c).connect = true)
    (hnone : (s.conns c).info = none → s.connectors.entries = [])
    (hsome : ∀ info, (s.conns c).info = some info → s.connectors.entries = [⟨info.id, c⟩])
    (quiet : Bool) :
    (World.parted s c quiet).config = s.config ∧ (World.parted s c quiet).boxes = s.boxes ∧
      (World.parted s c quiet).connectors.entries = [] ∧
      (World.parted s c quiet).named =
        match (s.conns c).info with
        | none => s.named
        | some info => Table.keep s.named fun mbid => mbid.nodeid != info.id := by
  have hfail : s.step (.fail c) = s.close c := by
    simp only [step, hconnect, if_true]
  have hconn : (s.close c).conns c = { s.conns c with closed := true } := setConn_self s c _
  have hfinal : (s.close c).step (.finalise c quiet) = (s.close c).finalise c quiet := by
    have hcond : (((s.close c).conns c).connect && ((s.close c).conns c).closed) = true := by
      rw [hconn]
      simp [hconnect]
    simp only [step, hcond, if_true]
    rfl
  have hleave : ((s.close c).leave c).config = s.config ∧ ((s.close c).leave c).boxes = s.boxes ∧
      ((s.close c).leave c).connectors.entries = [] ∧
      ((s.close c).leave c).named =
        match (s.conns c).info with
        | none => s.named
        | some info => Table.keep s.named fun mbid => mbid.nodeid != info.id := by
    unfold leave
    rw [hconn]
    rcases hinfo : (s.conns c).info with _ | info
    · exact ⟨rfl, rfl, hnone hinfo, rfl⟩
    · refine ⟨rfl, rfl, ?_, rfl⟩
      show List.kerase info.id s.connectors.entries = []
      rw [hsome info hinfo]
      simp
  have hroll : ∀ {u : NodeMonitor}, u.connectors.entries = [] → SameNames u u.rollback ∧
      u.rollback.connectors.entries = [] := by
    intro u hempty
    refine ⟨⟨rfl, rfl, rfl⟩, ?_⟩
    show u.connectors.entries.filter _ = []
    rw [hempty]
    rfl
  have hchecks : ∀ {u : NodeMonitor}, u.connectors.entries = [] →
      SameNames u ((u.checkIfAllCleanup quiet).checkIfAllRollback) ∧
        (u.checkIfAllCleanup quiet).checkIfAllRollback.connectors.entries = [] := by
    intro u hempty
    refine ⟨(checkIfAllCleanup_names u quiet).trans (checkIfAllRollback_names _), ?_⟩
    have hcleanup : (u.checkIfAllCleanup quiet).connectors = u.connectors := by
      unfold checkIfAllCleanup
      split <;> rfl
    have hrollback : (u.checkIfAllCleanup quiet).checkIfAllRollback.connectors =
        (u.checkIfAllCleanup quiet).connectors := by
      unfold checkIfAllRollback
      split <;> rfl
    rw [hrollback, hcleanup]
    exact hempty
  obtain ⟨hconfig, hboxes, hempty, hnamed⟩ := hleave
  unfold World.parted
  rw [hfail, hfinal, finalise_eq]
  split
  · obtain ⟨hnames, hempty'⟩ := hroll hempty
    obtain ⟨hnames', hempty''⟩ := hchecks hempty'
    have hall := hnames.trans hnames'
    exact ⟨hall.config.trans hconfig, hall.boxes.trans hboxes, hempty'', hall.named.trans hnamed⟩
  · obtain ⟨hnames, hempty'⟩ := hchecks hempty
    exact ⟨hnames.config.trans hconfig, hnames.boxes.trans hboxes, hempty',
      hnames.named.trans hnamed⟩

/-! ### Sending -/

theorem sends_sent (hconnect : (s.conns c).connect = true) (hclosed : (s.conns c).closed = false)
    (msg : Message) : (s.sends c msg).filterMap (sentOver c) = [msg] := by
  rw [sends, hconnect, hclosed]
  simp [sentOver]

/-- A peer that is known learns of an edit. -/
theorem edited_sent_known {e : Option (Edit Name MailboxID)} (h : EditedBy s e t) {id : UInt8}
    (hconnectors : s.connectors.entries = [⟨id, c⟩]) (hconnect : (s.conns c).connect = true)
    (hclosed : (s.conns c).closed = false) : sentBy s t c = e.toList.map editMessage := by
  rw [sentBy_append h.out]
  cases e with
  | none => rfl
  | some e =>
      have hcasts : s.casts (editMessage e) = s.sends c (editMessage e) := by
        simp [casts, Table.values, hconnectors]
      have hevent : sentOver c (editEvent e) = none := by
        cases e <;> rfl
      show (editEvent e :: s.casts (editMessage e)).filterMap (sentOver c) = _
      rw [List.filterMap_cons, hevent, hcasts]
      exact sends_sent hconnect hclosed _

theorem edited_sent_unknown {e : Option (Edit Name MailboxID)} (h : EditedBy s e t)
    (hconnectors : s.connectors.entries = []) : sentBy s t c = [] := by
  rw [sentBy_append h.out]
  cases e with
  | none => rfl
  | some e =>
      have hcasts : s.casts (editMessage e) = [] := by
        simp [casts, Table.values, hconnectors]
      have hevent : sentOver c (editEvent e) = none := by
        cases e <;> rfl
      show (editEvent e :: s.casts (editMessage e)).filterMap (sentOver c) = _
      rw [List.filterMap_cons, hevent, hcasts]
      rfl

/-- A message between mailboxes goes to the peer or nowhere. -/
theorem cast_spec (s : NodeMonitor) (msg : Message) :
    SameNames s (s.cast msg) ∧ (s.cast msg).conns = s.conns ∧
      (s.cast msg).connectors = s.connectors ∧
      ∀ m ∈ sentBy s (s.cast msg) c, m = msg := by
  have hstay : SameNames s s ∧ s.conns = s.conns ∧ s.connectors = s.connectors ∧
      ∀ m ∈ sentBy s s c, m = msg := by
    refine ⟨⟨rfl, rfl, rfl⟩, rfl, rfl, ?_⟩
    intro m hmem
    rw [sentBy_append (List.append_nil _).symm] at hmem
    cases hmem
  unfold NodeMonitor.cast
  split
  · exact hstay
  · split
    · rename_i c' _
      rw [sendMessage_eq]
      refine ⟨⟨rfl, rfl, rfl⟩, rfl, rfl, ?_⟩
      intro m hmem
      rw [sentBy_append rfl, List.mem_filterMap] at hmem
      obtain ⟨e, he, hm⟩ := hmem
      unfold sends at he
      split at he
      · rw [List.mem_singleton.mp he, sentOver] at hm
        split at hm
        · exact (Option.some.inj hm).symm
        · cases hm
      · cases he
    · exact hstay

end Jengine.Cluster
