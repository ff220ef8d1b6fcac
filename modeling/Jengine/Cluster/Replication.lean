import Jengine.Cluster.Copies

/-!
# Replication between two nodes

A node gets all named mailboxes of the other node when that one has authenticated
it, every edit after that, and drops all of them when the connection is closed.
In every state of every run the copies are right up to the edits that are on their
way, and after the connection is gone there is no copy.
-/

namespace Jengine.Cluster

open Jengine.Lib NodeMonitor

variable {cfg : Configure} {peer : UInt8} {s t p q : NodeMonitor} {c d : Nat} {info : NodeInfo}

/-! ### The two nodes -/

/-- The invariant. -/
structure Inv (cfg : Bool → Configure) (w : World) : Prop where
  node : ∀ i, NodeInv (cfg i) (cfg (!i)).info.id (w.node i) (w.conn i) (w.up i) w.lost
  dir : ∀ i, Dir (w.node i) (w.node (!i)) (w.conn i) (w.conn (!i)) (w.queue i) (w.up (!i)) w.lost

theorem start_inv (cfg : Bool → Configure) : Inv cfg (World.start cfg) := by
  have hno : ∀ i peer, NoEntries ((World.start cfg).node i) peer := by
    intro i peer name mbid hlookup
    cases hlookup
  constructor
  · intro i
    refine ⟨rfl, ?_, ?_, fun _ => rfl, ?_, ?_, fun _ _ => rfl, ?_⟩
    · intro name mbid hlookup
      cases hlookup
    · intro mb hmem
      cases hmem
    · intro hup
      cases hup
    · intro hlost
      cases hlost
    · intro hup
      cases hup
  · intro i
    refine ⟨?_, fun _ => hno _ _, ?_, ?_, ?_⟩
    · intro msg hmem
      cases hmem
    · intro hup
      cases hup
    · intro hlost
      cases hlost
    · intro hlost
      cases hlost

section Steps

variable {cfg : Bool → Configure} {w : World} {j : Bool}

theorem eq_not_of_ne {i j : Bool} (h : i ≠ j) : i = !j := by
  cases i <;> cases j <;> simp_all

/-- The invariant after a node has changed: the node itself, what it has sent, and its copy. -/
theorem inv_act {t : NodeMonitor}
    (hnode : NodeInv (cfg j) (cfg (!j)).info.id t (w.conn j) (w.up j)
      (w.lost || (t.conns (w.conn j)).closed))
    (hother : NodeInv (cfg (!j)) (cfg j).info.id (w.node (!j)) (w.conn (!j)) (w.up (!j)) w.lost)
    (hsend : Dir t (w.node (!j)) (w.conn j) (w.conn (!j))
      (if w.lost then w.queue j else w.queue j ++ sentBy (w.node j) t (w.conn j)) (w.up (!j))
      (w.lost || (t.conns (w.conn j)).closed))
    (hrecv : Dir (w.node (!j)) t (w.conn (!j)) (w.conn j) (w.queue (!j)) (w.up j)
      (w.lost || (t.conns (w.conn j)).closed)) : Inv cfg (w.act j t) := by
  have hj : (w.act j t).node j = t := Function.update_self ..
  have hnj : (w.act j t).node (!j) = w.node (!j) :=
    Function.update_of_ne (Bool.not_ne_self j) ..
  have hqj : (w.act j t).queue j =
      if w.lost then w.queue j else w.queue j ++ sentBy (w.node j) t (w.conn j) := by
    simp only [World.act]
    split
    · rfl
    · exact Function.update_self ..
  have hqnj : (w.act j t).queue (!j) = w.queue (!j) := by
    simp only [World.act]
    split
    · rfl
    · exact Function.update_of_ne (Bool.not_ne_self j) ..
  constructor
  · intro i
    by_cases hi : i = j
    · subst hi
      rw [hj]
      exact hnode
    · rw [eq_not_of_ne hi, hnj, Bool.not_not]
      show NodeInv _ _ _ _ _ (w.lost || (t.conns (w.conn j)).closed)
      cases (t.conns (w.conn j)).closed with
      | false =>
          rw [Bool.or_false]
          exact hother
      | true =>
          rw [Bool.or_true]
          exact hother.mono
  · intro i
    by_cases hi : i = j
    · subst hi
      rw [hj, hnj, hqj]
      exact hsend
    · rw [eq_not_of_ne hi, hnj, Bool.not_not, hj, hqnj]
      exact hrecv

/-- A node whose end of the connection has not changed does not lose it. -/
theorem lost_act {t : NodeMonitor} (h : Inv cfg w) (hconns : t.conns = (w.node j).conns) :
    (w.lost || (t.conns (w.conn j)).closed) = w.lost := by
  cases hlost : w.lost with
  | true => rfl
  | false =>
      rw [hconns, ((h.node j).opened hlost).2]
      rfl

/-- What a node sends of an edit over a connection that is not lost. -/
theorem NodeInv.sent_edited {cfg : Configure} {up : Bool} {e : Option (Edit Name MailboxID)}
    (h : NodeInv cfg peer s c up false) (hedit : EditedBy s e t) :
    ((s.conns c).info = none ∧ sentBy s t c = []) ∨
      ((s.conns c).info ≠ none ∧ sentBy s t c = e.toList.map editMessage) := by
  obtain ⟨hup, hclosed⟩ := h.opened rfl
  rcases hinfo : (s.conns c).info with _ | info
  · exact .inl ⟨rfl, edited_sent_unknown hedit (h.unknown hup hinfo)⟩
  · right
    refine ⟨by simp, ?_⟩
    exact edited_sent_known hedit (h.known hup info hinfo).2 (h.connect hup) hclosed

/-- **A node edits its named mailboxes.** -/
theorem Inv.edited {t : NodeMonitor} {e : Option (Edit Name MailboxID)} (h : Inv cfg w)
    (hne : (cfg (!j)).info.id ≠ (cfg j).info.id)
    (hfits : ∀ e' ∈ e, Fits (cfg j) (cfg (!j)).info.id (w.node j) e')
    (hedit : EditedBy (w.node j) e t)
    (hboxes : ∀ mb ∈ t.boxes, Proper (cfg j) (cfg (!j)).info.id mb.name) :
    Inv cfg (w.act j t) := by
  have hlost := lost_act h hedit.conns
  have hother := h.node (!j)
  have hback := h.dir (!j)
  rw [Bool.not_not] at hother hback
  have hpeer := hother.config
  have hself := (h.node j).config
  apply inv_act
  · rw [hlost]
    exact (h.node j).edited hfits hedit hboxes
  · exact hother
  · rw [hlost]
    apply (h.dir j).send hedit.config
    · intro hfalse msg hmem
      have hnode := h.node j
      rw [hfalse] at hnode
      rcases hnode.sent_edited hedit with ⟨-, hsent⟩ | ⟨-, hsent⟩
      · rw [hsent] at hmem
        cases hmem
      · rw [hsent, List.mem_map] at hmem
        obtain ⟨e', he', rfl⟩ := hmem
        rw [hself]
        exact (hfits e' (Option.mem_toList.mp he')).sent
    · intro hfalse hinfo
      have hnode := h.node j
      rw [hfalse] at hnode
      rw [hedit.conns] at hinfo
      rcases hnode.sent_edited hedit with ⟨-, hsent⟩ | ⟨hknown, -⟩
      · rw [hsent]
        exact ⟨hinfo, rfl⟩
      · exact absurd hinfo hknown
    · intro hfalse hinfo info hfind
      have hnode := h.node j
      rw [hfalse] at hnode
      rw [hedit.conns] at hinfo
      rcases hnode.sent_edited hedit with ⟨hnone, -⟩ | ⟨-, hsent⟩
      · exact absurd hnone hinfo
      · rw [replay_append, (h.dir j).synced hfalse hinfo info hfind, hsent]
        cases e with
        | none =>
            have hsame : locals t = locals (w.node j) := by
              funext name
              rw [locals_eq, locals_eq, hedit.named, hedit.config]
              rfl
            exact hsame.symm
        | some e =>
            have hfit := hfits e rfl
            rw [locals_edited hself hfit hedit]
            show replay _ ((editMessage e :: []).filterMap editOf) = _
            rw [List.filterMap_cons, hfit.editOf]
            rfl
  · rw [hlost]
    apply hback.receiver hedit.config hedit.conns
    · intro hno name mbid hlookup
      rcases named_edited hfits hedit hlookup with hold | hown
      · exact hno name mbid hold
      · rw [hown.node, hpeer]
        exact hne.symm
    · intro info hfind
      rw [hself, hpeer] at hfind
      funext name
      exact lookup_edited_reserved hfits hedit (reserved_qualified hfind name)

/-- A node that changes neither its names nor its end of the connection. -/
theorem NodeInv.congr {cfg : Configure} {up lost : Bool} (h : NodeInv cfg peer s c up lost)
    (hnames : SameNames s t) (hconns : t.conns = s.conns)
    (hconnectors : t.connectors = s.connectors) : NodeInv cfg peer t c up lost := by
  refine ⟨hnames.config.trans h.config, ?_, ?_, ?_, ?_, ?_, ?_, ?_⟩
  · rw [hnames.named]
    exact h.named
  · rw [hnames.boxes]
    exact h.boxes
  · rw [hconnectors]
    exact h.down
  · rw [hconns]
    exact h.connect
  · rw [hconns]
    exact h.opened
  · rw [hconns, hconnectors]
    exact h.unknown
  · rw [hconns, hconnectors]
    exact h.known

theorem SameNames.locals (h : SameNames s t) : locals t = locals s := by
  funext name
  rw [locals_eq, locals_eq, h.named, h.config]

theorem SameNames.noEntries (h : SameNames s t) (hno : NoEntries s peer) : NoEntries t peer := by
  unfold NoEntries
  rw [h.named]
  exact hno

theorem SameNames.view (h : SameNames s t) (info : NodeInfo) : view t info = view s info := by
  unfold Cluster.view
  rw [h.named]

/-- **A mailbox sends a message to a mailbox.** -/
theorem Inv.cast (h : Inv cfg w) {msg : Message} (hvalid : msg.wire.receiver.valid = true) :
    Inv cfg (w.act j ((w.node j).cast msg)) := by
  obtain ⟨hnames, hconns, hconnectors, hsent⟩ := cast_spec (c := w.conn j) (w.node j) msg
  have hlost := lost_act h hconns
  have hother := h.node (!j)
  have hback := h.dir (!j)
  rw [Bool.not_not] at hother hback
  have hedits : (sentBy (w.node j) ((w.node j).cast msg) (w.conn j)).filterMap editOf = [] := by
    rw [List.filterMap_eq_nil_iff]
    intro m hmem
    rw [hsent m hmem]
    exact editOf_cast hvalid
  apply inv_act
  · rw [hlost]
    exact (h.node j).congr hnames hconns hconnectors
  · exact hother
  · rw [hlost]
    apply (h.dir j).send hnames.config
    · intro _ m hmem
      rw [hsent m hmem]
      exact .cast hvalid
    · rw [hconns]
      exact fun _ hinfo => ⟨hinfo, hedits⟩
    · rw [hconns, hedits, hnames.locals]
      intro hfalse hinfo info hfind
      rw [List.append_nil]
      exact (h.dir j).synced hfalse hinfo info hfind
  · rw [hlost]
    exact hback.receiver hnames.config hconns hnames.noEntries fun info _ => hnames.view info

/-- When the connection is lost, the state of the sender does not matter. -/
theorem Dir.sender_lost {p' : NodeMonitor} {queue : List Message} {up lost : Bool}
    (h : Dir p q c d queue up lost) (hconfig : p'.config = p.config) :
    Dir p' q c d queue up true := by
  refine ⟨?_, ?_, ?_, ?_, ?_⟩
  · rw [hconfig]
    exact h.sent
  · rw [hconfig]
    exact h.gone
  · rw [hconfig]
    exact h.mono.unknown
  · intro hfalse
    cases hfalse
  · intro hfalse
    cases hfalse

/-- **The connection is lost.** -/
theorem Inv.lose (h : Inv cfg w) (rest : Bool → Nat) :
    Inv cfg { w with queue := fun i => (w.queue i).take (rest i), lost := true } :=
  ⟨fun i => (h.node i).mono, fun i => (h.dir i).lose (rest i)⟩

/-- **A node notices that the connection is lost.** -/
theorem Inv.notice (h : Inv cfg w) (hlost : w.lost = true) (hup : w.up j = true) (quiet : Bool) :
    Inv cfg { w with node := Function.update w.node j (World.parted (w.node j) (w.conn j) quiet)
                     up := Function.update w.up j false
                     queue := Function.update w.queue (!j) [] } := by
  have hnode := h.node j
  have hother := h.node (!j)
  have hback := h.dir (!j)
  rw [Bool.not_not] at hother hback
  obtain ⟨hconfig, hboxes, hempty, hnamed⟩ := parted_spec (hnode.connect hup)
    (hnode.unknown hup) (fun info hinfo => (hnode.known hup info hinfo).2) quiet
  -- the names that are left were there before, and the copy is gone
  have hleft : ∀ name mbid, (World.parted (w.node j) (w.conn j) quiet).named.lookup name =
      some mbid → (w.node j).named.lookup name = some mbid ∧ mbid.nodeid ≠ (cfg (!j)).info.id := by
    intro name mbid hlookup
    rw [hnamed] at hlookup
    rcases hinfo : ((w.node j).conns (w.conn j)).info with _ | info
    · rw [hinfo] at hlookup
      have hno := (hback.unknown hup hinfo).1
      rw [hother.config] at hno
      exact ⟨hlookup, hno name mbid hlookup⟩
    · rw [hinfo] at hlookup
      obtain ⟨hlookup, hid⟩ := Table.lookup_keep.mp hlookup
      rw [Configure.findNodeInfoByID_id (hnode.known hup info hinfo).1, bne_iff_ne] at hid
      exact ⟨hlookup, hid⟩
  have hupj : Function.update w.up j false (!j) = w.up (!j) :=
    Function.update_of_ne (Bool.not_ne_self j) ..
  have hnj : Function.update w.node j (World.parted (w.node j) (w.conn j) quiet) (!j) =
      w.node (!j) := Function.update_of_ne (Bool.not_ne_self j) ..
  constructor
  · intro i
    by_cases hi : i = j
    · subst hi
      simp only [Function.update_self]
      refine ⟨hconfig.trans hnode.config, ?_, ?_, fun _ => hempty, ?_, ?_, ?_, ?_⟩
      · intro name mbid hlookup
        exact hnode.named name mbid (hleft name mbid hlookup).1
      · rw [hboxes]
        exact hnode.boxes
      · intro hfalse
        cases hfalse
      · rw [hlost]
        intro hfalse
        cases hfalse
      · intro hfalse
        cases hfalse
      · intro hfalse
        cases hfalse
    · rw [eq_not_of_ne hi, Bool.not_not]
      simp only [hnj, hupj]
      exact hother
  · intro i
    by_cases hi : i = j
    · subst hi
      have hq : Function.update w.queue (!i) [] i = w.queue i :=
        Function.update_of_ne (Bool.not_ne_self i).symm ..
      simp only [Function.update_self, hnj, hupj, hq, hlost]
      exact (h.dir i).sender_lost hconfig
    · rw [eq_not_of_ne hi, Bool.not_not]
      simp only [Function.update_self, hnj, hlost]
      refine ⟨?_, ?_, ?_, ?_, ?_⟩
      · intro msg hmem
        cases hmem
      · intro _ name mbid hlookup
        rw [hother.config]
        exact (hleft name mbid hlookup).2
      · intro hfalse
        cases hfalse
      · intro hfalse
        cases hfalse
      · intro hfalse
        cases hfalse

/-- **A connection is established.** -/
theorem Inv.establish (h : Inv cfg w) (hdown : ∀ i, w.up i = false) (required : Bool → Bool) :
    Inv cfg (w.establish required) := by
  have hno : ∀ i, NoEntries (World.joined (w.node (!i)) (required (!i))) (cfg i).info.id := by
    intro i
    have hgone := (h.dir i).gone (hdown (!i))
    rw [(h.node i).config] at hgone
    exact (joined_spec (w.node (!i)) (required (!i))).1.noEntries hgone
  have hconfig : ∀ i, (World.joined (w.node i) (required i)).config = cfg i := by
    intro i
    exact (joined_spec (w.node i) (required i)).1.config.trans (h.node i).config
  constructor
  · intro i
    obtain ⟨hnames, hconnectors, hconn, -⟩ := joined_spec (w.node i) (required i)
    have hempty : (World.joined (w.node i) (required i)).connectors.entries = [] := by
      rw [hconnectors]
      exact (h.node i).down (hdown i)
    refine ⟨hconfig i, ?_, ?_, fun _ => hempty, ?_, ?_, fun _ _ => hempty, ?_⟩
    · show ∀ name mbid, (World.joined (w.node i) (required i)).named.lookup name = _ → _
      rw [hnames.named]
      exact (h.node i).named
    · show ∀ mb ∈ (World.joined (w.node i) (required i)).boxes, _
      rw [hnames.boxes]
      exact (h.node i).boxes
    · intro _
      show ((World.joined (w.node i) (required i)).conns (w.node i).next).connect = true
      rw [hconn]
    · intro _
      refine ⟨rfl, ?_⟩
      show ((World.joined (w.node i) (required i)).conns (w.node i).next).closed = false
      rw [hconn]
      rfl
    · intro _ info hinfo
      change ((World.joined (w.node i) (required i)).conns (w.node i).next).info = _ at hinfo
      rw [hconn] at hinfo
      cases hinfo
  · intro i
    obtain ⟨-, -, hconn, hsent⟩ := joined_spec (w.node i) (required i)
    have hqueue : (w.establish required).queue i = [authMessage (cfg i)] := by
      rw [← (h.node i).config]
      exact hsent
    have hnode : ((w.establish required).node i).config = cfg i := hconfig i
    rw [hqueue]
    refine ⟨?_, ?_, ?_, ?_, ?_⟩
    · intro msg hmem
      rw [List.mem_singleton.mp hmem, hnode]
      exact .auth
    · intro hfalse
      cases hfalse
    · intro _ _
      rw [hnode]
      exact ⟨hno i, .inr (.inr ⟨[], rfl⟩)⟩
    · intro _ _
      rw [hnode, List.filterMap_cons, editOf_authMessage]
      exact ⟨hno i, rfl⟩
    · intro _ hinfo
      change ((World.joined (w.node i) (required i)).conns (w.node i).next).info ≠ none at hinfo
      rw [hconn] at hinfo
      exact absurd rfl hinfo

theorem pop_queue_self (w : World) (j : Bool) : (w.pop j).queue j = w.queue j :=
  Function.update_of_ne (Bool.not_ne_self j).symm ..

theorem pop_queue_not (w : World) (j : Bool) : (w.pop j).queue (!j) = (w.queue (!j)).tail :=
  Function.update_self ..

/-- The invariant after a node has changed as it handled a message. -/
theorem inv_pop_act {t : NodeMonitor} {msg : Message} {rest : List Message}
    (hqueue : w.queue (!j) = msg :: rest)
    (hnode : NodeInv (cfg j) (cfg (!j)).info.id t (w.conn j) (w.up j)
      (w.lost || (t.conns (w.conn j)).closed))
    (hother : NodeInv (cfg (!j)) (cfg j).info.id (w.node (!j)) (w.conn (!j)) (w.up (!j)) w.lost)
    (hsend : Dir t (w.node (!j)) (w.conn j) (w.conn (!j))
      (if w.lost then w.queue j else w.queue j ++ sentBy (w.node j) t (w.conn j)) (w.up (!j))
      (w.lost || (t.conns (w.conn j)).closed))
    (hrecv : Dir (w.node (!j)) t (w.conn (!j)) (w.conn j) rest (w.up j)
      (w.lost || (t.conns (w.conn j)).closed)) : Inv cfg ((w.pop j).act j t) := by
  apply inv_act
  · exact hnode
  · exact hother
  · rw [pop_queue_self]
    exact hsend
  · rw [pop_queue_not, hqueue]
    exact hrecv

/-- What is left on its way to a node that has closed its end is gone. -/
theorem Inv.pop_closed (h : Inv cfg w) (hup : w.up j = true)
    (hclosed : ((w.node j).conns (w.conn j)).closed = true) : Inv cfg (w.pop j) := by
  have hlost : w.lost = true := by
    by_contra hnot
    rw [((h.node j).opened (Bool.eq_false_iff.mpr hnot)).2] at hclosed
    cases hclosed
  refine ⟨h.node, ?_⟩
  intro i
  by_cases hi : i = j
  · subst hi
    rw [pop_queue_self]
    exact h.dir i
  · have hback := h.dir (!j)
    rw [Bool.not_not] at hback
    rw [eq_not_of_ne hi, pop_queue_not, Bool.not_not]
    refine ⟨?_, hback.gone, ?_, ?_, ?_⟩
    · intro msg hmem
      exact hback.sent msg (List.mem_of_mem_tail hmem)
    · intro _ hinfo
      exact ⟨(hback.unknown hup hinfo).1, .inl hclosed⟩
    · intro hfalse
      exact absurd (hlost.symm.trans hfalse) (by decide)
    · intro hfalse
      exact absurd (hlost.symm.trans hfalse) (by decide)

/-- The copy after a message was handled. -/
theorem Dir.heard {msg : Message} {rest : List Message} {lost : Bool}
    (h : Dir p q c d (msg :: rest) true lost) (hinfo : (q.conns d).info = some info)
    (hfind : ∀ info', q.config.findNodeInfoByID p.config.info.id = some info' → info' = info)
    (hheard : Heard q ((editOf msg).map (renamed info)) t) : Dir p t c d rest true lost := by
  refine ⟨?_, ?_, ?_, ?_, ?_⟩
  · intro m hmem
    exact h.sent m (List.mem_cons_of_mem _ hmem)
  · intro hfalse
    cases hfalse
  · rw [hheard.conns, hinfo]
    intro _ hnone
    cases hnone
  · intro hlost hnone
    obtain ⟨hno, hqueue⟩ := h.silent hlost hnone
    rw [List.filterMap_cons] at hqueue
    rcases hedit : editOf msg with _ | e
    · rw [hedit] at hqueue hheard
      refine ⟨?_, hqueue⟩
      intro name mbid hlookup
      rw [hheard.named] at hlookup
      exact hno name mbid hlookup
    · rw [hedit] at hqueue
      cases hqueue
  · rw [hheard.config]
    intro hlost hknown info' hfind'
    have hsynced := h.synced hlost hknown info' hfind'
    rw [List.filterMap_cons] at hsynced
    rw [hfind info' hfind'] at hsynced ⊢
    rcases hedit : editOf msg with _ | e
    · rw [hedit] at hsynced hheard
      have hview : view t info = view q info := by
        funext name
        exact hheard.named _
      rw [hview]
      exact hsynced
    · rw [hedit] at hsynced hheard
      rw [view_heard hheard]
      exact hsynced

/-- **A node handles a message from a peer that it knows.** -/
theorem Inv.hear (h : Inv cfg w) (hne : (cfg (!j)).info.id ≠ (cfg j).info.id) {msg : Message}
    {rest : List Message} (hqueue : w.queue (!j) = msg :: rest) (hup : w.up j = true)
    (hinfo : ((w.node j).conns (w.conn j)).info = some info) :
    Inv cfg ((w.pop j).act j ((w.node j).handleMessage (w.conn j) msg.wire)) := by
  have hnode := h.node j
  have hother := h.node (!j)
  have hback := h.dir (!j)
  rw [Bool.not_not] at hother hback
  rw [hqueue, hup] at hback
  obtain ⟨hfind, -⟩ := hnode.known hup info hinfo
  have hsent := hback.sent msg List.mem_cons_self
  rw [hother.config] at hsent
  have hheard := handleMessage_heard hinfo hsent
  have hput : ∀ name mbid, editOf msg = some (.put name mbid) →
      mbid.nodeid = (cfg (!j)).info.id := fun name mbid hedit => nodeid_of_sent hsent hedit
  have hlost := lost_act h hheard.conns
  apply inv_pop_act hqueue
  · rw [hlost]
    exact hnode.heard hfind hput hheard
  · exact hother
  · rw [hlost]
    apply (h.dir j).send hheard.config
    · intro _ m hmem
      rw [hheard.sent] at hmem
      cases hmem
    · rw [hheard.conns]
      intro _ hnone
      rw [hinfo] at hnone
      cases hnone
    · rw [hheard.conns, locals_heard hne hnode hfind hput hheard]
      intro hfalse hknown info' hfind'
      rw [hheard.sent, List.filterMap_nil, List.append_nil]
      exact (h.dir j).synced hfalse hknown info' hfind'
  · rw [hlost, hup]
    apply hback.heard hinfo _ hheard
    intro info' hfind'
    rw [hnode.config, hother.config, hfind] at hfind'
    exact (Option.some.inj hfind').symm

/-- **A node authenticates its peer.** -/
theorem Inv.welcome (h : Inv cfg w) (hne : (cfg (!j)).info.id ≠ (cfg j).info.id)
    {rest : List Message} (hqueue : w.queue (!j) = authMessage (cfg (!j)) :: rest)
    (hup : w.up j = true) (hinfo : ((w.node j).conns (w.conn j)).info = none)
    (hclosed : ((w.node j).conns (w.conn j)).closed = false)
    (hfind : (cfg j).findNodeInfoByID (cfg (!j)).info.id = some info) :
    Inv cfg ((w.pop j).act j ((w.node j).authenticate (w.conn j) info)) := by
  have hnode := h.node j
  have hother := h.node (!j)
  have hback := h.dir (!j)
  rw [Bool.not_not] at hother hback
  rw [hqueue, hup] at hback
  have hconnect := hnode.connect hup
  obtain ⟨hnames, hconns, hconnectors, hsent⟩ :=
    authenticate_welcomed (hnode.unknown hup hinfo) hconnect hclosed info
  have hconn : ((w.node j).authenticate (w.conn j) info).conns (w.conn j) =
      { (w.node j).conns (w.conn j) with info := some info } := by
    rw [hconns, Function.update_self]
  have hlost : (w.lost || (((w.node j).authenticate (w.conn j) info).conns (w.conn j)).closed) =
      w.lost := by
    rw [hconn, hclosed, Bool.or_false]
  have hno : NoEntries (w.node j) (w.node (!j)).config.info.id := (hback.unknown rfl hinfo).1
  apply inv_pop_act hqueue
  · rw [hlost]
    refine ⟨hnames.config.trans hnode.config, ?_, ?_, ?_, ?_, ?_, ?_, ?_⟩
    · rw [hnames.named]
      exact hnode.named
    · rw [hnames.boxes]
      exact hnode.boxes
    · intro hdown
      exact absurd (hup.symm.trans hdown) (by decide)
    · intro _
      rw [hconn]
      exact hconnect
    · intro _
      refine ⟨hup, ?_⟩
      rw [hconn]
      exact hclosed
    · intro _ hnone
      rw [hconn] at hnone
      cases hnone
    · intro _ info' hinfo'
      rw [hconn] at hinfo'
      cases hinfo'
      exact ⟨hfind, hconnectors⟩
  · exact hother
  · rw [hlost]
    have hown : ∀ e ∈ (localTable (w.node j)).entries,
        Own (cfg j) (cfg (!j)).info.id e.1 e.2 := by
      intro e hmem
      obtain ⟨hlookup, hlocal⟩ := Table.lookup_keep.mp (Table.mem_entries.mp hmem)
      rcases hnode.named e.1 e.2 hlookup with hown | hforeign
      · exact hown
      · rw [isLocalMailbox, hnode.config, hforeign.node, beq_iff_eq] at hlocal
        exact absurd hlocal.symm hne
    apply (h.dir j).send hnames.config
    · intro _ m hmem
      rw [hsent, List.mem_map] at hmem
      obtain ⟨e, he, rfl⟩ := hmem
      rw [hnode.config]
      exact .put (hown e he).proper.1 (hown e he).node (hown e he).pid
    · intro _ hnone
      rw [hconn] at hnone
      cases hnone
    · intro hfalse _ info' hfind'
      obtain ⟨hnone, hedits⟩ := (h.dir j).silent hfalse hinfo
      rw [hother.config, hnode.config] at hfind'
      rw [hnode.config] at hnone
      rw [hedits, List.nil_append, hother.view_none hfind' hnone, hnames.locals, hsent,
        List.filterMap_map]
      have hputs : (localTable (w.node j)).entries.filterMap
          (editOf ∘ fun e => registerMessage e.1 e.2) =
            (localTable (w.node j)).entries.map fun e => .put e.1 e.2 := by
        rw [← List.filterMap_eq_map]
        apply List.filterMap_congr
        intro e hmem
        exact editOf_registerMessage (hown e hmem).proper.1 (hown e hmem).pid
      rw [hputs]
      exact replay_entries _
  · rw [hlost, hup]
    refine ⟨?_, ?_, ?_, ?_, ?_⟩
    · intro m hmem
      exact hback.sent m (List.mem_cons_of_mem _ hmem)
    · intro hfalse
      cases hfalse
    · intro _ hnone
      rw [hconn] at hnone
      cases hnone
    · intro hfalse hnone
      have hqueue' := (hback.silent hfalse hnone).2
      rw [List.filterMap_cons, editOf_authMessage] at hqueue'
      exact ⟨hnames.noEntries hno, hqueue'⟩
    · intro hfalse hknown info' hfind'
      rw [hnames.config] at hfind'
      have hsynced := hback.synced hfalse hknown info' hfind'
      rw [List.filterMap_cons, editOf_authMessage] at hsynced
      rw [hnames.view]
      exact hsynced

/-- **A node rejects its peer.** -/
theorem Inv.reject (h : Inv cfg w) {msg : Message} {rest : List Message}
    (hqueue : w.queue (!j) = msg :: rest) (hup : w.up j = true)
    (hinfo : ((w.node j).conns (w.conn j)).info = none) :
    Inv cfg ((w.pop j).act j ((w.node j).close (w.conn j))) := by
  have hnode := h.node j
  have hother := h.node (!j)
  have hback := h.dir (!j)
  rw [Bool.not_not] at hother hback
  rw [hqueue, hup] at hback
  have hconn : ((w.node j).close (w.conn j)).conns (w.conn j) =
      { (w.node j).conns (w.conn j) with closed := true } := setConn_self _ _ _
  have hlost : (w.lost || (((w.node j).close (w.conn j)).conns (w.conn j)).closed) = true := by
    rw [hconn, Bool.or_true]
  apply inv_pop_act hqueue
  · rw [hlost]
    refine ⟨hnode.config, hnode.named, hnode.boxes, hnode.down, ?_, ?_, ?_, ?_⟩
    · intro hup'
      rw [hconn]
      exact hnode.connect hup'
    · intro hfalse
      cases hfalse
    · intro hup' _
      exact hnode.unknown hup' hinfo
    · intro _ info' hinfo'
      rw [hconn] at hinfo'
      exact absurd (hinfo.symm.trans hinfo') (by simp)
  · exact hother
  · have hsent : sentBy (w.node j) ((w.node j).close (w.conn j)) (w.conn j) = [] :=
      sentBy_append (List.append_nil _).symm _
    rw [hlost, hsent, List.append_nil, ite_self]
    exact (h.dir j).sender_lost rfl
  · rw [hlost, hup]
    refine ⟨?_, ?_, ?_, ?_, ?_⟩
    · intro m hmem
      exact hback.sent m (List.mem_cons_of_mem _ hmem)
    · intro hfalse
      cases hfalse
    · intro _ _
      refine ⟨(hback.unknown rfl hinfo).1, .inl ?_⟩
      rw [hconn]
    · intro hfalse
      cases hfalse
    · intro hfalse
      cases hfalse

end Steps

/-! ### Runs -/

/-- A node gives its mailboxes names that can be sent and are not qualified names of the other
    node. -/
def Courteous (cfg : Bool → Configure) (_ : World) : World.Act → Prop
  | .create i name _ => Proper (cfg i) (cfg (!i)).info.id name
  | _ => True

instance (cfg : Bool → Configure) (w : World) (a : World.Act) : Decidable (Courteous cfg w a) := by
  unfold Courteous
  split <;> infer_instance

theorem step_inv {cfg : Bool → Configure} {w : World} (hne : ∀ i, (cfg (!i)).info.id ≠ (cfg i).info.id)
    (h : Inv cfg w) {a : World.Act} (hcourteous : Courteous cfg w a) : Inv cfg (w.step a) := by
  cases a with
  | establish required =>
      simp only [World.step]
      split
      · exact h
      · rename_i hdown
        rw [Bool.or_eq_true, not_or, Bool.not_eq_true, Bool.not_eq_true] at hdown
        apply h.establish
        intro i
        cases i
        · exact hdown.2
        · exact hdown.1
  | create i name sys =>
      simp only [World.step]
      rcases hcreate : (w.node i).create name sys with _ | ⟨t, r⟩
      · exact h.edited (hne i) (e := none) (fun _ he => by cases he)
          ⟨rfl, rfl, rfl, rfl, (List.append_nil _).symm⟩ (h.node i).boxes
      · obtain ⟨e, hcreates, hedit, hboxes⟩ := create_edited hcreate
        apply h.edited (hne i) _ hedit
        · intro mb hmem
          rcases hboxes mb hmem with hold | hnew
          · exact (h.node i).boxes mb hold
          · rw [hnew]
            exact hcourteous
        · intro e' he'
          cases hcreates with
          | unnamed _ => cases he'
          | created mbid _ hnone hnode hpid =>
              cases he'
              rw [(h.node i).config] at hnode
              exact ⟨hnone, hnode, hcourteous, hpid⟩
          | refused _ _ =>
              cases he'
              exact hcourteous
  | destroy i mb =>
      obtain ⟨e, hedit, he, hboxes⟩ := destroy_edited (w.node i) mb
      apply h.edited (hne i) _ hedit
      · intro mb' hmem
        exact (h.node i).boxes mb' (hboxes mb' hmem)
      · intro e' he'
        rcases he with rfl | ⟨hmem, rfl⟩
        · cases he'
        · cases he'
          exact (h.node i).boxes mb hmem
  | cast i msg =>
      simp only [World.step]
      split
      · rename_i hvalid
        exact h.cast hvalid
      · exact h
  | deliver i =>
      simp only [World.step]
      rcases hqueue : w.queue (!i) with _ | ⟨msg, rest⟩
      · exact h
      · dsimp only
        split
        · rename_i hup
          split
          · rename_i hclosed
            exact h.pop_closed hup hclosed
          · rename_i hclosed
            rw [Bool.not_eq_true] at hclosed
            rcases hinfo : ((w.node i).conns (w.conn i)).info with _ | info
            · -- the first message is the authentication of the other node
              have hback := h.dir (!i)
              have hpeer := (h.node (!i)).config
              rw [Bool.not_not] at hback
              obtain ⟨-, hclosed' | ⟨-, hnil⟩ | ⟨rest', hcons⟩⟩ := hback.unknown hup hinfo
              · exact absurd (hclosed.symm.trans hclosed') (by decide)
              · rw [hqueue] at hnil
                cases hnil
              · rw [hqueue, hpeer] at hcons
                cases hcons
                rcases handleMessage_auth hinfo (cfg (!i)) with ⟨info, hfind, heq⟩ | heq
                · rw [heq]
                  rw [(h.node i).config] at hfind
                  exact h.welcome (hne i) hqueue hup hinfo hclosed hfind
                · rw [heq]
                  exact h.reject hqueue hup hinfo
            · exact h.hear (hne i) hqueue hup hinfo
        · exact h
  | lose rest => exact h.lose rest
  | notice i quiet =>
      simp only [World.step]
      split
      · rename_i hcond
        rw [Bool.and_eq_true] at hcond
        exact h.notice hcond.1 hcond.2 quiet
      · exact h

/-- The connection is authenticated on both sides. -/
def World.Authenticated (w : World) : Prop :=
  w.lost = false ∧ ∀ i, ((w.node i).conns (w.conn i)).authed = true

/-- The entries that the other node has of node `i` are the local named mailboxes of node `i`
    under their qualified names. -/
def World.Replicated (cfg : Bool → Configure) (w : World) (i : Bool) : Prop :=
  ∃ info, (cfg (!i)).findNodeInfoByID (cfg i).info.id = some info ∧ ∀ name mbid,
    ((w.node (!i)).named.lookup name = some mbid ∧ mbid.nodeid = (cfg i).info.id) ↔
      ∃ y, name = qualified y info ∧ (w.node i).named.lookup y = some mbid ∧
        mbid.nodeid = (cfg i).info.id

theorem Inv.replicated {cfg : Bool → Configure} {w : World} (h : Inv cfg w) {i : Bool}
    (hne : (cfg (!i)).info.id ≠ (cfg i).info.id) (hauth : w.Authenticated) (hqueue : w.queue i = []) : w.Replicated cfg i := by
  obtain ⟨hlost, hauthed⟩ := hauth
  obtain ⟨hup, -⟩ := (h.node (!i)).opened hlost
  have hknown : ∀ i, ∃ info, ((w.node i).conns (w.conn i)).info = some info := by
    intro i
    exact Option.isSome_iff_exists.mp (hauthed i)
  obtain ⟨info, hinfo⟩ := hknown (!i)
  obtain ⟨info', hinfo'⟩ := hknown i
  obtain ⟨hfind, -⟩ := (h.node (!i)).known hup info hinfo
  rw [Bool.not_not] at hfind
  have hfind' : (w.node (!i)).config.findNodeInfoByID (w.node i).config.info.id = some info := by
    rw [(h.node (!i)).config, (h.node i).config]
    exact hfind
  have hsynced := (h.dir i).synced hlost (by rw [hinfo']; simp) info hfind'
  rw [hqueue, List.filterMap_nil, replay_nil] at hsynced
  have hlocal : ∀ y mbid, locals (w.node i) y = some mbid ↔
      (w.node i).named.lookup y = some mbid ∧ mbid.nodeid = (cfg i).info.id := by
    intro y mbid
    rw [locals_eq, Option.filter_eq_some_iff, (h.node i).config, beq_iff_eq]
    constructor
    · exact fun hy => ⟨hy.1, hy.2.symm⟩
    · exact fun hy => ⟨hy.1, hy.2.symm⟩
  refine ⟨info, hfind, ?_⟩
  intro name mbid
  constructor
  · rintro ⟨hlookup, hid⟩
    have hforeign := (h.node (!i)).named name mbid hlookup
    rw [Bool.not_not] at hforeign
    rcases hforeign with hown | hforeign
    · exact absurd (hown.node.symm.trans hid) hne
    · obtain ⟨y, rfl⟩ := exists_qualified hfind hforeign.reserved
      have hview : view (w.node (!i)) info y = some mbid := hlookup
      rw [hsynced] at hview
      exact ⟨y, rfl, (hlocal y mbid).mp hview⟩
  · rintro ⟨y, rfl, hy⟩
    have hview := (hlocal y mbid).mpr hy
    rw [← hsynced] at hview
    exact ⟨hview, hy.2⟩

/-- **In every run of two nodes whose mailboxes have proper names: when the connection is
    authenticated on both sides and nothing from a node is on its way, the other node has its
    named mailboxes; and a node that has noticed the loss of the connection has none of the
    other's.** -/
theorem run_replicated (cfg : Bool → Configure) (hne : (cfg true).info.id ≠ (cfg false).info.id)
    (as : List World.Act) (h : Along World.step (Courteous cfg) (World.start cfg) as) (i : Bool) :
    ((run World.step (World.start cfg) as).Authenticated →
      (run World.step (World.start cfg) as).queue i = [] →
      (run World.step (World.start cfg) as).Replicated cfg i) ∧
    ((run World.step (World.start cfg) as).up (!i) = false →
      NoEntries ((run World.step (World.start cfg) as).node (!i)) (cfg i).info.id) := by
  have hids : ∀ i, (cfg (!i)).info.id ≠ (cfg i).info.id := by
    intro i
    cases i
    · exact hne
    · exact hne.symm
  have hinv := run_invariant (I := Inv cfg) (fun w a hw ha => step_inv hids hw ha)
    (start_inv cfg) h
  constructor
  · exact fun hauth hqueue => hinv.replicated (hids i) hauth hqueue
  · intro hdown
    have hgone := (hinv.dir i).gone hdown
    rw [(hinv.node i).config] at hgone
    exact hgone

/-- Node `a` and node `b`. -/
def pair : Bool → Configure
  | false => clusterA []
  | true => clusterB

/-- Node `a` has a mailbox named `m` when the connection is established, and both nodes handle
    what they are sent. -/
def meeting : List World.Act :=
  [.create false [109] false, .establish fun _ => false, .deliver false, .deliver true,
    .deliver true]

theorem run_replicated_meeting :
    Along World.step (Courteous pair) (World.start pair) meeting ∧
      (run World.step (World.start pair) meeting).Replicated pair false := by
  have hcourteous : Along World.step (Courteous pair) (World.start pair) meeting := by decide
  have hauth : (run World.step (World.start pair) meeting).Authenticated := by
    refine ⟨by decide, ?_⟩
    intro i
    cases i <;> decide
  exact ⟨hcourteous, (run_replicated pair (by decide) meeting hcourteous false).1 hauth (by decide)⟩

/-- Node `b` has a mailbox whose name is the qualified name of `m`. -/
def impostor : List World.Act := .create true [109, 64, 97] false :: meeting

/-- Node `b` has no entry of node `a`. -/
theorem not_replicated_impostor :
    (run World.step (World.start pair) impostor).Authenticated ∧
      (run World.step (World.start pair) impostor).queue false = [] ∧
      ¬ (run World.step (World.start pair) impostor).Replicated pair false := by
  refine ⟨⟨by decide, ?_⟩, by decide, ?_⟩
  · intro i
    cases i <;> decide
  · rintro ⟨info, hfind, hall⟩
    have hinfo : nodeA [] = info := Option.some.inj hfind
    subst hinfo
    have hmissing := (hall (qualified [109] (nodeA [])) ⟨1, 10001⟩).mpr
      ⟨[109], rfl, by decide, by decide⟩
    exact absurd hmissing.1 (by decide)

end Jengine.Cluster
