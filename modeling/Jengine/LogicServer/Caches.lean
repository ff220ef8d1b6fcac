import Jengine.LogicServer.ExtractFriends

/-!
# What is cached of the players

`LocalWorld` (`logicserver/localworld.h`, `localworld.cpp`) answers from its tables where a player
is online, who has a nickname, and what a profile is.  Entries of players who are offline and whose
profile has not been read for five minutes are thrown away, by a timer.

The server is told things: where a player is online and that he is not any more, by messages, and
what his profile is.  `Told` is what it has been told last.  The mailboxes and the nicknames that
the tables answer with are those.  A profile is the last one too or there is none, and one that
has been read is there for five minutes.
-/

namespace Jengine.LogicServer

open Jengine.Cluster (MailboxID Name Reader)
open Jengine.Lib

namespace LocalWorld

/-- `QueryPlayerMailboxID`. -/
def queryPlayerMailboxID (w : LocalWorld) (uid : UInt32) : Option MailboxID :=
  (w.find uid).bind fun p => if p.online then some p.mbid else none

/-! ### Runs -/

inductive Action where
  | message (code : RpcCode) (payload : List UInt8) (fuel : Nat)
  | updatePublicProfile (uid : UInt32) (profile : Public)
  | query (uid : UInt32) (tick : Int)
  | cleanup (nowTick : Int)
  | create (session : Nat) (s : Session)
  | delete (player : Nat)
  /-- The entries of the map are in this order now. -/
  | rehash (globals : List (UInt32 × Player))

def step (w : LocalWorld) : Action → LocalWorld
  | .message code payload fuel => (w.onMessageReceive code payload fuel).1
  | .updatePublicProfile uid profile => w.updatePublicProfile uid profile
  | .query uid tick => (w.queryCachedPlayerProfile uid tick).2
  | .cleanup nowTick => w.cleanupExpirePlayer nowTick
  | .create session s => w.create session s
  | .delete player => w.delete player
  | .rehash globals => { w with globals := globals }

/-- The map keeps its entries when their order changes. -/
def Allowed (w : LocalWorld) : Action → Prop
  | .rehash globals => w.globals.Perm globals
  | _ => True

theorem reachable_step {w : LocalWorld} (h : Reachable w) {a : Action} (ha : w.Allowed a) :
    Reachable (w.step a) := by
  cases a with
  | message code payload fuel => exact h.message code payload fuel
  | updatePublicProfile uid profile => exact h.updatePublicProfile uid profile
  | query uid tick => exact h.query uid tick
  | cleanup nowTick => exact h.cleanup nowTick
  | create session s => exact h.create session s
  | delete player => exact h.delete player
  | rehash globals => exact h.rehash ha

/-! ### Finding -/

theorem Distinct.mem_iff {w : LocalWorld} (h : w.Distinct) {uid : UInt32} {p : Player} :
    (uid, p) ∈ w.globals ↔ w.find uid = some p := by
  have hfound : w.find uid = some p ↔ ∃ pre post, w.globals = pre ++ (uid, p) :: post ∧
      ∀ e ∈ pre, uid != e.1 := List.lookup_eq_some_iff
  constructor
  · intro hmem
    obtain ⟨pre, post, heq⟩ := List.append_of_mem hmem
    refine hfound.mpr ⟨pre, post, heq, fun e he => ?_⟩
    have hnodup := h
    rw [Distinct, heq, List.map_append, List.map_cons] at hnodup
    have hne := (List.nodup_append.mp hnodup).2.2 e.1 (List.mem_map_of_mem he) uid
      List.mem_cons_self
    exact bne_iff_ne.mpr hne.symm
  · intro hfind
    obtain ⟨pre, post, heq, -⟩ := hfound.mp hfind
    rw [heq]
    exact List.mem_append_right _ List.mem_cons_self

theorem find_modify (w : LocalWorld) (uid : UInt32) (f : Player → Player) (uid' : UInt32) :
    (w.modify uid f).find uid' = if uid' = uid then (w.find uid).map f else w.find uid' := by
  show (w.globals.map _).lookup uid' = if uid' = uid then (w.globals.lookup uid).map f
    else w.globals.lookup uid'
  induction w.globals with
  | nil => simp
  | cons e es ih =>
      obtain ⟨k, p⟩ := e
      rw [List.map_cons]
      by_cases hk : k = uid
      · subst hk
        rw [if_pos rfl]
        by_cases hsame : uid' = k
        · subst hsame
          simp
        · simp only [List.lookup_cons, beq_false_of_ne hsame, ih, if_neg hsame]
      · rw [if_neg hk]
        by_cases hsame : uid' = k
        · subst hsame
          simp [hk]
        · simp only [List.lookup_cons, beq_false_of_ne hsame, beq_false_of_ne (Ne.symm hk), ih]

theorem find_findOrEmplace (w : LocalWorld) (uid uid' : UInt32) :
    (w.findOrEmplace uid).find uid' =
      if uid' = uid then some ((w.find uid).getD (Player.make uid)) else w.find uid' := by
  unfold findOrEmplace
  cases hfind : w.find uid with
  | none =>
      by_cases hsame : uid' = uid
      · subst hsame
        simp [find]
      · show List.lookup uid' ((uid, Player.make uid) :: w.globals) = _
        rw [List.lookup_cons, beq_false_of_ne hsame, if_neg hsame]
        rfl
  | some p =>
      by_cases hsame : uid' = uid
      · subst hsame
        rw [if_pos rfl, hfind]
        rfl
      · rw [if_neg hsame]

theorem Distinct.find_cleanup {w : LocalWorld} (h : w.Distinct) (nowTick : Int) (uid : UInt32) :
    (w.cleanupExpirePlayer nowTick).find uid =
      (w.find uid).filter fun p => p.online || decide (nowTick - p.lru ≤ 1000 * 60 * 5) := by
  have hdistinct : (w.cleanupExpirePlayer nowTick).Distinct :=
    h.sublist ((List.filter_sublist).map _)
  apply Option.ext
  intro p
  rw [← hdistinct.mem_iff, Option.filter_eq_some_iff, ← h.mem_iff]
  exact List.mem_filter

theorem Distinct.find_perm {w : LocalWorld} (h : w.Distinct) {globals : List (UInt32 × Player)}
    (hperm : w.globals.Perm globals) (uid : UInt32) :
    ({ w with globals := globals } : LocalWorld).find uid = w.find uid := by
  have hdistinct : ({ w with globals := globals } : LocalWorld).Distinct :=
    (hperm.map _).nodup_iff.mp h
  apply Option.ext
  intro p
  rw [← hdistinct.mem_iff, ← h.mem_iff]
  exact hperm.mem_iff.symm

theorem find_updateToOnline (w : LocalWorld) (uid : UInt32) (mbid : MailboxID) (uid' : UInt32) :
    (w.updateToOnline uid mbid).find uid' =
      if uid' = uid then some (((w.find uid).getD (Player.make uid)).setOnline mbid)
      else w.find uid' := by
  rw [updateToOnline, find_modify, find_findOrEmplace, find_findOrEmplace, if_pos rfl,
    Option.map_some]
  by_cases hsame : uid' = uid
  · rw [if_pos hsame, if_pos hsame]
  · rw [if_neg hsame, if_neg hsame, if_neg hsame]

theorem find_updatePublicProfile (w : LocalWorld) (uid : UInt32) (profile : Public)
    (uid' : UInt32) : (w.updatePublicProfile uid profile).find uid' =
      if uid' = uid then
        some { (w.find uid).getD (Player.make uid) with profile := some profile }
      else w.find uid' := by
  have hfind : (w.updatePublicProfile uid profile).find uid' =
      ((w.findOrEmplace uid).modify uid fun p => { p with profile := some profile }).find uid' := by
    rw [updatePublicProfile]
    split <;> rfl
  rw [hfind, find_modify, find_findOrEmplace, find_findOrEmplace, if_pos rfl, Option.map_some]
  by_cases hsame : uid' = uid
  · rw [if_pos hsame, if_pos hsame]
  · rw [if_neg hsame, if_neg hsame, if_neg hsame]

theorem queryCachedPlayerUID_updatePublicProfile (w : LocalWorld) (uid : UInt32)
    (profile : Public) (nickname : Name) :
    (w.updatePublicProfile uid profile).queryCachedPlayerUID nickname =
      if profile.nickname ≠ [] ∧ nickname = profile.nickname then uid
      else w.queryCachedPlayerUID nickname := by
  have hindex : (w.findOrEmplace uid).nicknameUidIndex = w.nicknameUidIndex := by
    rw [findOrEmplace]
    split <;> rfl
  rw [updatePublicProfile]
  by_cases hempty : profile.nickname = []
  · rw [if_pos hempty, if_neg fun h => h.1 hempty]
    exact congrArg (fun t => (AList.lookup nickname t).getD 0) hindex
  · rw [if_neg hempty]
    show (AList.lookup nickname ((w.findOrEmplace uid).nicknameUidIndex.insert _ uid)).getD 0 = _
    rw [hindex]
    by_cases hsame : nickname = profile.nickname
    · rw [if_pos ⟨hempty, hsame⟩, hsame, AList.lookup_insert]
      rfl
    · rw [if_neg fun h => hsame h.2, AList.lookup_insert_ne hsame]
      rfl

/-! ### What was told last -/

/-- What the server has been told last of each player. -/
structure Told where
  /-- The mailbox that he is online with. -/
  mailbox : UInt32 → Option MailboxID
  /-- Who has a nickname; 0 if it is nobody's. -/
  uid : Name → UInt32
  profile : UInt32 → Option Public

namespace Told

def start : Told := ⟨fun _ => none, fun _ => 0, fun _ => none⟩

def online (t : Told) (uid : UInt32) (mbid : MailboxID) : Told :=
  { t with mailbox := Function.update t.mailbox uid (if mbid.valid then some mbid else none) }

def offline (t : Told) (uid : UInt32) : Told :=
  { t with mailbox := Function.update t.mailbox uid none }

/-- A player without a nickname keeps the one that he has had. -/
def publicProfile (t : Told) (uid : UInt32) (profile : Public) : Told :=
  { t with
    uid := if profile.nickname = [] then t.uid else Function.update t.uid profile.nickname uid
    profile := Function.update t.profile uid (some profile) }

def step (t : Told) : Action → Told
  | .message .updateToOnline payload _ =>
      match readOnline payload with
      | none => t
      | some ((uid, mbid), _) => t.online uid mbid
  | .message .updateToOffline payload _ =>
      match Reader.readUInt payload with
      | none => t
      | some (uid, _) => t.offline uid
  | .updatePublicProfile uid profile => t.publicProfile uid profile
  | _ => t

end Told

/-- The tables answer with what was told last; of the profiles some are missing. -/
structure Right (w : LocalWorld) (t : Told) : Prop where
  distinct : w.Distinct
  mailbox : ∀ uid, w.queryPlayerMailboxID uid = t.mailbox uid
  uid : ∀ nickname, w.queryCachedPlayerUID nickname = t.uid nickname
  profile : ∀ uid p profile, w.find uid = some p → p.profile = some profile →
    t.profile uid = some profile

variable {w : LocalWorld} {t : Told}

theorem right_start : Right make Told.start where
  distinct := List.nodup_nil
  mailbox := fun _ => rfl
  uid := fun _ => rfl
  profile := fun _ _ _ h => absurd h (by simp [make, find])

/-- Nothing is told, and what is found of a player is as good as before. -/
theorem Right.of_find {w' : LocalWorld} (h : Right w t) (hdistinct : w'.Distinct)
    (hindex : w'.nicknameUidIndex = w.nicknameUidIndex)
    (hmailbox : ∀ uid, w'.queryPlayerMailboxID uid = w.queryPlayerMailboxID uid)
    (hprofile : ∀ uid p, w'.find uid = some p → ∃ q, w.find uid = some q ∧ q.profile = p.profile) :
    Right w' t where
  distinct := hdistinct
  mailbox := fun uid => (hmailbox uid).trans (h.mailbox uid)
  uid := fun nickname => by
    rw [← h.uid, queryCachedPlayerUID, hindex]
    rfl
  profile := fun uid p profile hfind hp => by
    obtain ⟨q, hq, hsame⟩ := hprofile uid p hfind
    exact h.profile uid q profile hq (hsame.trans hp)

theorem Right.updateToOnline (h : Right w t) (uid : UInt32) (mbid : MailboxID) :
    Right (w.updateToOnline uid mbid) (t.online uid mbid) where
  distinct := (h.distinct.findOrEmplace uid).modify uid _
  mailbox := fun uid' => by
    rw [queryPlayerMailboxID, find_updateToOnline]
    by_cases hsame : uid' = uid
    · rw [if_pos hsame, hsame]
      exact (Function.update_self uid _ t.mailbox).symm
    · rw [if_neg hsame]
      exact (h.mailbox uid').trans (Function.update_of_ne hsame _ t.mailbox).symm
  uid := fun nickname => by
    have hindex : (w.updateToOnline uid mbid).nicknameUidIndex = w.nicknameUidIndex := by
      show (w.findOrEmplace uid).nicknameUidIndex = _
      rw [LocalWorld.findOrEmplace]
      split <;> rfl
    rw [queryCachedPlayerUID, hindex]
    exact h.uid nickname
  profile := fun uid' p profile hfind hp => by
    rw [find_updateToOnline] at hfind
    by_cases hsame : uid' = uid
    · rw [if_pos hsame, Option.some.injEq] at hfind
      rw [← hfind] at hp
      cases hold : w.find uid with
      | none =>
          rw [hold] at hp
          exact absurd hp (Option.some_ne_none profile).symm
      | some q =>
          rw [hold] at hp
          rw [hsame]
          exact h.profile uid q profile hold hp
    · rw [if_neg hsame] at hfind
      exact h.profile uid' p profile hfind hp

theorem Right.updateToOffline (h : Right w t) (uid : UInt32) :
    Right (w.updateToOffline uid) (t.offline uid) where
  distinct := h.distinct.modify uid _
  mailbox := fun uid' => by
    rw [queryPlayerMailboxID, LocalWorld.updateToOffline, find_modify]
    by_cases hsame : uid' = uid
    · rw [if_pos hsame, hsame]
      refine Eq.trans ?_ (Function.update_self uid none t.mailbox).symm
      cases w.find uid with
      | none => rfl
      | some p => rfl
    · rw [if_neg hsame]
      exact (h.mailbox uid').trans (Function.update_of_ne hsame _ t.mailbox).symm
  uid := h.uid
  profile := fun uid' p profile hfind hp => by
    rw [LocalWorld.updateToOffline, find_modify] at hfind
    by_cases hsame : uid' = uid
    · rw [if_pos hsame] at hfind
      obtain ⟨q, hq, hpq⟩ := Option.map_eq_some_iff.mp hfind
      rw [hsame]
      exact h.profile uid q profile hq (by rw [← hpq] at hp; exact hp)
    · rw [if_neg hsame] at hfind
      exact h.profile uid' p profile hfind hp

theorem Right.updatePublicProfile (h : Right w t) (uid : UInt32) (profile : Public) :
    Right (w.updatePublicProfile uid profile) (t.publicProfile uid profile) where
  distinct := h.distinct.updatePublicProfile uid profile
  mailbox := fun uid' => by
    rw [queryPlayerMailboxID, find_updatePublicProfile]
    by_cases hsame : uid' = uid
    · rw [if_pos hsame, hsame]
      refine Eq.trans ?_ (h.mailbox uid)
      rw [queryPlayerMailboxID]
      cases w.find uid with
      | none => rfl
      | some p => rfl
    · rw [if_neg hsame]
      exact h.mailbox uid'
  uid := fun nickname => by
    rw [queryCachedPlayerUID_updatePublicProfile, h.uid, Told.publicProfile]
    by_cases hempty : profile.nickname = []
    · rw [if_neg fun hboth => hboth.1 hempty, if_pos hempty]
    · rw [if_neg hempty]
      show _ = Function.update t.uid profile.nickname uid nickname
      rw [Function.update_apply]
      exact if_congr (and_iff_right hempty) rfl rfl
  profile := fun uid' p profile' hfind hp => by
    rw [find_updatePublicProfile] at hfind
    by_cases hsame : uid' = uid
    · rw [if_pos hsame, Option.some.injEq] at hfind
      rw [← hfind] at hp
      rw [hsame]
      exact (Function.update_self uid _ t.profile).trans hp
    · rw [if_neg hsame] at hfind
      exact (Function.update_of_ne hsame _ t.profile).trans (h.profile uid' p profile' hfind hp)

theorem fetchProfile_profile (p : Player) (tick : Int) :
    (p.fetchProfile tick).2.profile = p.profile := by
  rw [Player.fetchProfile]
  split <;> rfl

theorem fetchProfile_mbid (p : Player) (tick : Int) : (p.fetchProfile tick).2.mbid = p.mbid := by
  rw [Player.fetchProfile]
  split <;> rfl

theorem find_query (w : LocalWorld) (uid : UInt32) (tick : Int) (uid' : UInt32) :
    (w.queryCachedPlayerProfile uid tick).2.find uid' =
      if uid' = uid then (w.find uid).map fun p => (p.fetchProfile tick).2 else w.find uid' :=
  find_modify w uid _ uid'

theorem Right.query (h : Right w t) (uid : UInt32) (tick : Int) :
    Right (w.queryCachedPlayerProfile uid tick).2 t := by
  refine h.of_find (h.distinct.modify uid _) rfl (fun uid' => ?_) fun uid' p hfind => ?_
  · rw [queryPlayerMailboxID, queryPlayerMailboxID, find_query]
    by_cases hsame : uid' = uid
    · rw [if_pos hsame, hsame]
      cases w.find uid with
      | none => rfl
      | some p =>
          rw [Option.map_some, Option.bind_some, Option.bind_some, Player.online,
            fetchProfile_mbid, Player.online]
    · rw [if_neg hsame]
  · rw [find_query] at hfind
    by_cases hsame : uid' = uid
    · rw [if_pos hsame] at hfind
      obtain ⟨q, hq, hpq⟩ := Option.map_eq_some_iff.mp hfind
      exact ⟨q, hsame ▸ hq, by rw [← hpq, fetchProfile_profile]⟩
    · rw [if_neg hsame] at hfind
      exact ⟨p, hfind, rfl⟩

theorem Right.cleanup (h : Right w t) (nowTick : Int) :
    Right (w.cleanupExpirePlayer nowTick) t := by
  refine h.of_find (h.distinct.sublist ((List.filter_sublist).map _)) rfl (fun uid => ?_)
    fun uid p hfind => ?_
  · rw [queryPlayerMailboxID, queryPlayerMailboxID, h.distinct.find_cleanup]
    cases w.find uid with
    | none => rfl
    | some p =>
        -- a player who is online stays
        cases honline : p.online with
        | true => rw [Option.filter_some_pos (by rw [honline]; rfl)]
        | false =>
            rw [Option.bind_some, honline, if_neg Bool.false_ne_true, Option.bind_eq_none_iff]
            intro q hq
            have hsame := Option.some.inj (Option.filter_eq_some_iff.mp hq).1
            rw [← hsame, honline, if_neg Bool.false_ne_true]
  · rw [h.distinct.find_cleanup, Option.filter_eq_some_iff] at hfind
    exact ⟨p, hfind.1, rfl⟩

theorem Right.rehash (h : Right w t) {globals : List (UInt32 × Player)}
    (hperm : w.globals.Perm globals) : Right { w with globals := globals } t := by
  refine h.of_find ((hperm.map _).nodup_iff.mp h.distinct) rfl (fun uid => ?_) fun uid p hfind => ?_
  · rw [queryPlayerMailboxID, h.distinct.find_perm hperm]
    rfl
  · rw [h.distinct.find_perm hperm] at hfind
    exact ⟨p, hfind, rfl⟩

theorem Right.step (h : Right w t) {a : Action} (ha : w.Allowed a) :
    Right (w.step a) (t.step a) := by
  cases a with
  | message code payload fuel =>
      cases code with
      | updateToOnline =>
          simp only [LocalWorld.step, Told.step, onMessageReceive]
          cases readOnline payload with
          | none => exact h
          | some e => exact h.updateToOnline e.1.1 e.1.2
      | updateToOffline =>
          simp only [LocalWorld.step, Told.step, onMessageReceive]
          cases Reader.readUInt payload with
          | none => exact h
          | some e => exact h.updateToOffline e.1
      | worldChate =>
          simp only [LocalWorld.step, Told.step, onMessageReceive]
          split
          · exact h
          · exact h.of_find h.distinct rfl (fun _ => rfl) fun _ p hp => ⟨p, hp, rfl⟩
      | updatePublicProfile => exact h
      | other => exact h
  | updatePublicProfile uid profile => exact h.updatePublicProfile uid profile
  | query uid tick => exact h.query uid tick
  | cleanup nowTick => exact h.cleanup nowTick
  | create session s => exact h.of_find h.distinct rfl (fun _ => rfl) fun _ p hp => ⟨p, hp, rfl⟩
  | delete player => exact h.of_find h.distinct rfl (fun _ => rfl) fun _ p hp => ⟨p, hp, rfl⟩
  | rehash globals => exact h.rehash ha

/-- **The tables are never out of date.** -/
theorem run_told (as : List Action) (h : Along step Allowed make as) :
    Right (run step make as) (run Told.step Told.start as) :=
  run_related (fun _ _ _ hr ha => hr.step ha) right_start h

/-- Player 7 comes online and has a profile. -/
def arrived : List Action :=
  [.message .updateToOnline [7, 0, 0, 0, 1, 0, 0, 2] 0, .updatePublicProfile 7 ⟨7, [65]⟩]

theorem run_told_arrived :
    Right (run step make arrived) (run Told.step Told.start arrived) :=
  run_told arrived ⟨trivial, trivial, trivial⟩

/-! ### Profiles that are read stay -/

/-- A cleanup comes within five minutes after the time, or while the player is online.  The clock
    does not go back. -/
def Spares (uid : UInt32) (tick : Int) (w : LocalWorld) : Action → Prop
  | .cleanup nowTick => (w.queryPlayerMailboxID uid).isSome = true ∨ nowTick - tick ≤ 1000 * 60 * 5
  | .query uid' tick' => uid' = uid → tick ≤ tick'
  | a => w.Allowed a

/-- A profile is cached that was last read at the time or later. -/
def Kept (uid : UInt32) (tick : Int) (w : LocalWorld) : Prop :=
  ∃ p, w.find uid = some p ∧ p.profile.isSome = true ∧ tick ≤ p.lru

theorem kept_of_find {w' : LocalWorld} {uid : UInt32} {tick : Int} (h : Kept uid tick w)
    (hfind : ∀ p, w.find uid = some p → ∃ q, w'.find uid = some q ∧
      (p.profile.isSome = true → q.profile.isSome = true) ∧ p.lru ≤ q.lru) : Kept uid tick w' := by
  obtain ⟨p, hp, hprofile, hlru⟩ := h
  obtain ⟨q, hq, hkeep, hle⟩ := hfind p hp
  exact ⟨q, hq, hkeep hprofile, Int.le_trans hlru hle⟩

/-- A player is left alone or changed by something that leaves his profile and its time alone. -/
theorem kept_of_map {w' : LocalWorld} {uid : UInt32} {tick : Int} (h : Kept uid tick w)
    (uid' : UInt32) (f : Player → Player)
    (hfind : ∀ p, w.find uid = some p → w'.find uid = if uid = uid' then some (f p) else some p)
    (hprofile : ∀ p, p.profile.isSome = true → (f p).profile.isSome = true)
    (hlru : ∀ p, (f p).lru = p.lru) : Kept uid tick w' := by
  refine kept_of_find h fun p hp => ?_
  by_cases hsame : uid = uid'
  · exact ⟨f p, by rw [hfind p hp, if_pos hsame], hprofile p, Int.le_of_eq (hlru p).symm⟩
  · exact ⟨p, by rw [hfind p hp, if_neg hsame], id, Int.le_refl _⟩

theorem Kept.step {uid : UInt32} {tick : Int} (hdistinct : w.Distinct) (h : Kept uid tick w)
    {a : Action} (ha : Spares uid tick w a) : Kept uid tick (w.step a) := by
  cases a with
  | message code payload fuel =>
      cases code with
      | updateToOnline =>
          simp only [LocalWorld.step, onMessageReceive]
          cases readOnline payload with
          | none => exact h
          | some e =>
              have hfind := find_updateToOnline w e.1.1 e.1.2 uid
              refine kept_of_map h e.1.1 (fun p => p.setOnline e.1.2)
                (fun p hp => hfind.trans ?_) (fun _ => id) fun _ => rfl
              split
              next hsame => rw [← hsame, hp]; rfl
              next => exact hp
      | updateToOffline =>
          simp only [LocalWorld.step, onMessageReceive]
          cases Reader.readUInt payload with
          | none => exact h
          | some e =>
              have hfind := find_modify w e.1 Player.setOffline uid
              refine kept_of_map h e.1 Player.setOffline (fun p hp => hfind.trans ?_)
                (fun _ => id) fun _ => rfl
              split
              next hsame => rw [← hsame, hp]; rfl
              next => exact hp
      | worldChate =>
          simp only [LocalWorld.step, onMessageReceive]
          split
          · exact h
          · exact h
      | updatePublicProfile => exact h
      | other => exact h
  | updatePublicProfile uid' profile =>
      refine kept_of_map h uid' (fun p => { p with profile := some profile }) (fun p hp => ?_)
        (fun _ _ => rfl) fun _ => rfl
      rw [LocalWorld.step, find_updatePublicProfile]
      split
      next hsame => rw [← hsame, hp]; rfl
      next => exact hp
  | query uid' tick' =>
      obtain ⟨p, hp, hprofile, hlru⟩ := h
      have hfind := find_query w uid' tick' uid
      by_cases hsame : uid = uid'
      · rw [if_pos hsame, ← hsame, hp, Option.map_some] at hfind
        refine ⟨(p.fetchProfile tick').2, hsame ▸ hfind, by rwa [fetchProfile_profile], ?_⟩
        rw [Player.fetchProfile, if_neg (Option.isSome_iff_ne_none.mp hprofile)]
        exact ha hsame.symm
      · rw [if_neg hsame, hp] at hfind
        exact ⟨p, hfind, hprofile, hlru⟩
  | cleanup nowTick =>
      obtain ⟨p, hp, hprofile, hlru⟩ := h
      refine ⟨p, ?_, hprofile, hlru⟩
      rw [LocalWorld.step, hdistinct.find_cleanup, Option.filter_eq_some_iff]
      refine ⟨hp, ?_⟩
      rcases ha with honline | hnow
      · rw [queryPlayerMailboxID, hp, Option.bind_some] at honline
        cases hon : p.online with
        | true => rfl
        | false =>
            rw [hon, if_neg Bool.false_ne_true] at honline
            exact Bool.noConfusion honline
      · rw [Bool.or_eq_true, decide_eq_true_iff]
        exact Or.inr (by omega)
  | create session s => exact h
  | delete player => exact h
  | rehash globals =>
      obtain ⟨p, hp, hkept⟩ := h
      exact ⟨p, (hdistinct.find_perm ha uid).trans hp, hkept⟩

theorem allowed_of_spares {uid : UInt32} {tick : Int} {a : Action} (h : Spares uid tick w a) :
    w.Allowed a := by
  cases a with
  | rehash globals => exact h
  | _ => trivial

theorem right_kept {uid : UInt32} {tick : Int} {as : List Action} (hright : Right w t)
    (hkept : Kept uid tick w) (has : Along step (Spares uid tick) w as) :
    Right (run step w as) (run Told.step t as) ∧ Kept uid tick (run step w as) := by
  refine run_related (R := fun w t => Right w t ∧ Kept uid tick w) ?_ ⟨hright, hkept⟩ has
  intro w t a hr ha
  exact ⟨hr.1.step (allowed_of_spares ha), hr.2.step hr.1.distinct ha⟩

/-- **A profile that is read stays for five minutes**, and until the player goes offline. -/
theorem run_kept (as : List Action) (h : Along step Allowed make as) (uid : UInt32) (tick : Int)
    (hread : ((run step make as).queryCachedPlayerProfile uid tick).1.isSome = true)
    (later : List Action)
    (hlater : Along step (Spares uid tick) (run step make (as ++ [.query uid tick])) later)
    (tick' : Int) :
    ∃ profile, (run Told.step Told.start (as ++ [.query uid tick] ++ later)).profile uid =
        some profile ∧
      ((run step make (as ++ [.query uid tick] ++ later)).queryCachedPlayerProfile uid tick').1 =
        some profile := by
  have hfirst : Along step Allowed make (as ++ [.query uid tick]) :=
    along_append.mpr ⟨h, trivial, trivial⟩
  have hkept : Kept uid tick (run step make (as ++ [.query uid tick])) := by
    rw [run_append]
    generalize run step make as = w at *
    obtain ⟨profile, hprofile⟩ := Option.isSome_iff_exists.mp hread
    obtain ⟨p, hp, hfetch⟩ := Option.bind_eq_some_iff.mp hprofile
    have hfound : p.profile = some profile := hfetch
    have hfind := find_query w uid tick uid
    rw [if_pos rfl, hp, Option.map_some] at hfind
    refine ⟨_, hfind, by rw [fetchProfile_profile, hfound]; rfl, ?_⟩
    rw [Player.fetchProfile, if_neg (by rw [hfound]; exact Option.some_ne_none profile)]
  have hrelated := right_kept (run_told _ hfirst) hkept hlater
  rw [← run_append, ← run_append] at hrelated
  obtain ⟨hright, p, hp, hprofile, -⟩ := hrelated
  obtain ⟨profile, hsome⟩ := Option.isSome_iff_exists.mp hprofile
  refine ⟨profile, hright.profile uid p profile hp hsome, ?_⟩
  rw [queryCachedPlayerProfile, hp]
  exact hsome

/-- He goes offline, and a cleanup comes within five minutes. -/
def left : List Action := [.message .updateToOffline [7, 0, 0, 0] 0, .cleanup 300000]

theorem run_kept_left : ∃ profile,
    (run Told.step Told.start (arrived ++ [.query 7 1000] ++ left)).profile 7 = some profile ∧
      ((run step make (arrived ++ [.query 7 1000] ++ left)).queryCachedPlayerProfile 7
        400000).1 = some profile :=
  run_kept arrived ⟨trivial, trivial, trivial⟩ 7 1000 rfl left
    ⟨trivial, Or.inr (by decide), trivial⟩ 400000

end LocalWorld

end Jengine.LogicServer
