import Jengine.LogicServer.LocalWorld
import Mathlib.Data.Finset.Card

/-!
# The world chat

`BroadcastWorldChat` (`logicserver/localworld.cpp`) notes who speaks and sends what is said to the
connected players, walking the list of their sessions.  Where a player has switched the world chat
off the walk goes on by `continue`, which here leaves out the step to the next session.

`PushRecentWorldChatPlayer` keeps the five who spoke last.  It makes room for the speaker before
it looks whether the speaker is there already.
-/

namespace Jengine.LogicServer

open Jengine.Cluster (MailboxID Name Reader)
open Jengine.Utils (IntrusiveLists)

/-- What a message `WORLD_CHATE` carries. -/
structure WorldChat where
  uid : UInt32
  nickname : Name
  msg : Name
  level : UInt32
  profession : UInt32
deriving DecidableEq, Repr

/-- A call of `Response::WorldChat`. -/
structure Sent where
  session : Nat
  uid : UInt32
  nickname : Name
  msg : Name
  level : UInt32
  profession : UInt32
deriving DecidableEq, Repr

/-- How far the walk has come when no more steps are given to it. -/
inductive Walk where
  | returned (sent : List Sent)
  /-- A component is used that is not there. -/
  | crashed (sent : List Sent)
  | running (sent : List Sent)
deriving DecidableEq, Repr

def readWorldChat : Reader WorldChat := do
  let uid ← Reader.readUInt
  let nickname ← Reader.readString
  let msg ← Reader.readString
  let level ← Reader.readUInt
  let profession ← Reader.readUInt
  return ⟨uid, nickname, msg, level, profession⟩

namespace LocalWorld

/-- The loop of `BroadcastWorldChat`. -/
def chatLoop (w : LocalWorld) (chat : WorldChat) : Nat → Option Nat → List Sent → Walk
  | _, none, sent => .returned sent
  | 0, some _, sent => .running sent
  | fuel + 1, some it, sent =>
      match (w.sessions it).chat with
      | none => .crashed sent
      | some c =>
          if c.world = 0 then chatLoop w chat fuel (some it) sent
          else
            match (w.sessions it).character with
            | none => .crashed sent
            | some character =>
                -- the level and the profession are those of the player who is told
                chatLoop w chat fuel (w.players.listNext it) (sent ++
                  [⟨it, chat.uid, chat.nickname, chat.msg, character.level, character.profession⟩])

/-- `BroadcastWorldChat`. -/
def broadcastWorldChat (w : LocalWorld) (chat : WorldChat) (fuel : Nat) : LocalWorld × Walk :=
  let w := { w with
    recentWorldchatPlayers := pushRecentWorldChatPlayer w.recentWorldchatPlayers
      ⟨chat.uid, chat.profession, chat.nickname, chat.level⟩ }
  (w, w.chatLoop chat fuel (w.players.front ()) [])

/-- The codes of `model/rpc/csrpccode.h` that the world knows. -/
inductive RpcCode where
  | updateToOnline
  | updateToOffline
  | updatePublicProfile
  | worldChate
  | other
deriving DecidableEq, Repr

def readOnline : Reader (UInt32 × MailboxID) := do
  let uid ← Reader.readUInt
  let mbid ← Reader.readMailboxID
  return (uid, mbid)

/-- `OnMessageReceive`.  A message that is too short throws before anything is changed. -/
def onMessageReceive (w : LocalWorld) (code : RpcCode) (payload : List UInt8) (fuel : Nat) :
    LocalWorld × Option Walk :=
  match code with
  | .updateToOnline =>
      match readOnline payload with
      | none => (w, none)
      | some ((uid, mbid), _) => (w.updateToOnline uid mbid, none)
  | .updateToOffline =>
      match Reader.readUInt payload with
      | none => (w, none)
      | some (uid, _) => (w.updateToOffline uid, none)
  | .worldChate =>
      match readWorldChat payload with
      | none => (w, none)
      | some (chat, _) =>
          let (w, walk) := w.broadcastWorldChat chat fuel
          (w, some walk)
  -- `UPDATE_PUBLIC_PROFILE` has an empty case
  | .updatePublicProfile | .other => (w, none)

/-! ### Who is told -/

/-- The switch is on. -/
def switchOn (w : LocalWorld) (it : Nat) : Bool :=
  match (w.sessions it).chat with
  | none => false
  | some c => c.world != 0

/-- The broadcast ends, and each player who is connected and has the switch on is told once, and
    nobody else. -/
def BroadcastRight (w : LocalWorld) (chat : WorldChat) : Prop :=
  ∃ fuel sent, (w.broadcastWorldChat chat fuel).2 = .returned sent ∧
    (∀ it, (sent.map Sent.session).count it =
      if w.players.contains () it ∧ w.switchOn it then 1 else 0) ∧
    ∀ m ∈ sent, m.uid = chat.uid ∧ m.nickname = chat.nickname ∧ m.msg = chat.msg

/-- The components of the session are set up, and the switch is on. -/
def Hears (w : LocalWorld) (it : Nat) : Prop :=
  w.switchOn it ∧ (w.sessions it).character.isSome

/-- What a player is told. -/
def told (w : LocalWorld) (chat : WorldChat) (it : Nat) : Sent :=
  let character := (w.sessions it).character.getD ⟨0, 0⟩
  ⟨it, chat.uid, chat.nickname, chat.msg, character.level, character.profession⟩

section

variable {w : LocalWorld} {chat : WorldChat} {it : Nat} {xs : List Nat}

theorem chatLoop_of_hears (h : w.Hears it) (fuel : Nat) (sent : List Sent) :
    w.chatLoop chat (fuel + 1) (some it) sent =
      w.chatLoop chat fuel (w.players.listNext it) (sent ++ [w.told chat it]) := by
  obtain ⟨hswitch, hcharacter⟩ := h
  unfold switchOn at hswitch
  rw [chatLoop]
  cases hchat : (w.sessions it).chat with
  | none =>
      rw [hchat] at hswitch
      cases hswitch
  | some c =>
      rw [hchat] at hswitch
      obtain ⟨character, hsome⟩ := Option.isSome_iff_exists.mp hcharacter
      have hworld : ¬ c.world = 0 := by simpa using hswitch
      simp only [if_neg hworld, told, hsome, Option.getD_some]

/-- At a player who has the switch off the walk stands still. -/
theorem chatLoop_of_off {c : Chat} (hchat : (w.sessions it).chat = some c) (hoff : c.world = 0)
    (fuel : Nat) (sent : List Sent) : w.chatLoop chat fuel (some it) sent = .running sent := by
  induction fuel with
  | zero => rfl
  | succ fuel ih =>
      rw [chatLoop, hchat]
      exact (if_pos hoff).trans ih

theorem chatLoop_of_not_hears (h : ¬ w.Hears it) (fuel : Nat) (sent sent' : List Sent) :
    w.chatLoop chat fuel (some it) sent ≠ .returned sent' := by
  intro hreturned
  cases fuel with
  | zero => cases hreturned
  | succ fuel =>
      cases hchat : (w.sessions it).chat with
      | none =>
          rw [chatLoop, hchat] at hreturned
          cases hreturned
      | some c =>
          by_cases hoff : c.world = 0
          · rw [chatLoop_of_off hchat hoff] at hreturned
            cases hreturned
          · have hnone : (w.sessions it).character = none := by
              by_contra hsome
              refine h ⟨?_, Option.isSome_iff_ne_none.mpr hsome⟩
              rw [switchOn, hchat]
              exact bne_iff_ne.mpr hoff
            simp only [chatLoop, hchat, if_neg hoff, hnone] at hreturned
            cases hreturned

variable {pre : Option Nat}

/-- The walk along sessions that all hear. -/
theorem chatLoop_all (hlinked : Lib.IntrusiveList.Linked (w.players.view ()).hooks pre xs)
    (hall : ∀ it ∈ xs, w.Hears it) (sent : List Sent) :
    w.chatLoop chat xs.length xs.head? sent = .returned (sent ++ xs.map (w.told chat)) := by
  induction xs generalizing pre sent with
  | nil =>
      rw [List.map_nil, List.append_nil]
      rfl
  | cons it xs ih =>
      obtain ⟨hhook, hrest⟩ := hlinked
      obtain ⟨hit, hxs⟩ := List.forall_mem_cons.mp hall
      have hnext : w.players.listNext it = xs.head? := congrArg Lib.Hook.next hhook
      rw [List.length_cons, List.head?_cons, chatLoop_of_hears hit, hnext, ih hrest hxs,
        List.map_cons, List.append_assoc, List.singleton_append]

/-- A walk that returns has been told at every session. -/
theorem hears_of_returned {fuel : Nat} {sent sent' : List Sent}
    (hlinked : Lib.IntrusiveList.Linked (w.players.view ()).hooks pre xs)
    (hreturned : w.chatLoop chat fuel xs.head? sent = .returned sent') :
    ∀ it ∈ xs, w.Hears it := by
  induction xs generalizing pre fuel sent with
  | nil => exact fun it hit => absurd hit List.not_mem_nil
  | cons it xs ih =>
      obtain ⟨hhook, hrest⟩ := hlinked
      have hnext : w.players.listNext it = xs.head? := congrArg Lib.Hook.next hhook
      rw [List.head?_cons] at hreturned
      by_cases hit : w.Hears it
      · cases fuel with
        | zero => cases hreturned
        | succ fuel =>
            rw [chatLoop_of_hears hit, hnext] at hreturned
            exact List.forall_mem_cons.mpr ⟨hit, ih hrest hreturned⟩
      · exact absurd hreturned (chatLoop_of_not_hears hit fuel sent sent')

theorem hears_of_broadcastRight (hplayers : w.players.Spells fun _ => xs)
    (h : w.BroadcastRight chat) (hit : w.players.contains () it = true) : w.Hears it := by
  obtain ⟨fuel, sent, hreturned, -⟩ := h
  have hfront : w.players.front () = xs.head? := (hplayers ()).head
  simp only [broadcastWorldChat, hfront] at hreturned
  refine hears_of_returned (?_ : Lib.IntrusiveList.Linked _ none xs) hreturned it
    (hplayers.contains_iff.mp hit)
  exact (hplayers ()).links

theorem broadcastRight_of_hears (hplayers : w.players.Spells fun _ => xs)
    (hall : ∀ it, w.players.contains () it = true → w.Hears it) : w.BroadcastRight chat := by
  have hrep := hplayers ()
  have hcontains : ∀ it, w.players.contains () it = true ↔ it ∈ xs :=
    fun it => hplayers.contains_iff
  have hall' : ∀ it ∈ xs, w.Hears it := fun it hit => hall it ((hcontains it).mpr hit)
  have hfront : w.players.front () = xs.head? := hrep.head
  refine ⟨xs.length, xs.map (w.told chat), ?_, ?_, ?_⟩
  · simp only [broadcastWorldChat, hfront]
    refine (chatLoop_all (?_ : Lib.IntrusiveList.Linked _ none xs) ?_ []).trans rfl
    · exact hrep.links
    · exact hall'
  · intro it
    have hsessions : (xs.map (w.told chat)).map Sent.session = xs := by
      rw [List.map_map]
      exact List.map_id _
    rw [hsessions, hrep.nodup.count]
    refine if_congr ?_ rfl rfl
    rw [hcontains]
    exact ⟨fun hit => ⟨hit, (hall' it hit).1⟩, fun h => h.1⟩
  · intro m hm
    obtain ⟨it, -, rfl⟩ := List.mem_map.mp hm
    exact ⟨rfl, rfl, rfl⟩

/-- **A broadcast tells the players it should iff no player has switched it off**, and the
    sessions of all are set up. -/
theorem broadcastRight_iff (hplayers : w.players.Spells fun _ => xs) (chat : WorldChat) :
    w.BroadcastRight chat ↔ ∀ it, w.players.contains () it = true → w.Hears it :=
  ⟨fun h _ hit => hears_of_broadcastRight hplayers h hit, broadcastRight_of_hears hplayers⟩

end

/-! ### Two players -/

/-- Two players are connected; the one who came last has the given switch. -/
def twoPlayers (world : Nat) : LocalWorld :=
  (make.create 1 ⟨100, some ⟨1⟩, some ⟨30, 2⟩⟩).create 2 ⟨200, some ⟨world⟩, some ⟨12, 1⟩⟩

def hello : WorldChat := ⟨100, [65], [72, 105], 30, 2⟩

theorem spells_twoPlayers (world : Nat) : (twoPlayers world).players.Spells fun _ => [2, 1] := by
  have hcalls : Lib.Along IntrusiveLists.step IntrusiveLists.Allowed IntrusiveLists.make
      [.pushFront () 1, .pushFront () 2] := by decide
  exact IntrusiveLists.spells_run IntrusiveLists.spells_make hcalls

/-- The second player has switched the world chat off: the walk never gets past the session. -/
theorem not_broadcastRight_off :
    (twoPlayers 0).players.Spells (fun _ => [2, 1]) ∧
      (∀ fuel, ((twoPlayers 0).broadcastWorldChat hello fuel).2 = .running []) ∧
      ¬ (twoPlayers 0).BroadcastRight hello := by
  refine ⟨spells_twoPlayers 0, ?_, ?_⟩
  · intro fuel
    exact chatLoop_of_off (c := ⟨0⟩) rfl rfl fuel []
  · intro h
    have hin : (twoPlayers 0).players.contains () 2 = true := by decide
    exact absurd (hears_of_broadcastRight (spells_twoPlayers 0) h hin).1 (by decide)

theorem broadcastRight_iff_on :
    (twoPlayers 1).BroadcastRight hello ↔
      ∀ it, (twoPlayers 1).players.contains () it = true → (twoPlayers 1).Hears it :=
  broadcastRight_iff (spells_twoPlayers 1) hello

/-! ### Who spoke last -/

/-- The players who have spoken. -/
def speakers (spoken : List BaseLite) : Finset UInt32 := (spoken.map BaseLite.uid).toFinset

/-- What the list of those who spoke last should be after the messages `spoken`. -/
structure RecentRight (spoken recent : List BaseLite) : Prop where
  distinct : (recent.map BaseLite.uid).Nodup
  count : recent.length = min 5 (speakers spoken).card
  latest : ∀ p ∈ spoken.getLast?, p.uid ∈ recent.map BaseLite.uid

/-- The list is not full, or the speaker is not one of the first four in it. -/
def Spared (recent : List BaseLite) (profile : BaseLite) : Prop :=
  recent.length = 5 → profile.uid ∉ (recent.take 4).map BaseLite.uid

instance (recent : List BaseLite) (profile : BaseLite) : Decidable (Spared recent profile) :=
  inferInstanceAs (Decidable (_ → _))

/-- What is true of the list after the messages `spoken`, as long as all speakers were spared. -/
structure Recent (spoken recent : List BaseLite) : Prop where
  distinct : (recent.map BaseLite.uid).Nodup
  count : recent.length = min 5 (speakers spoken).card
  subset : ∀ p ∈ recent, p.uid ∈ speakers spoken

theorem recent_nil : Recent [] [] where
  distinct := List.nodup_nil
  count := rfl
  subset _ hp := absurd hp List.not_mem_nil

section

variable {spoken recent : List BaseLite} {profile : BaseLite}

theorem speakers_concat :
    speakers (spoken ++ [profile]) = insert profile.uid (speakers spoken) := by
  ext uid
  simp [speakers]

/-- The list before the speaker is looked for. -/
def madeRoom (recent : List BaseLite) : List BaseLite :=
  if 5 ≤ recent.length then recent.dropLast else recent

theorem push_of_mem (h : profile.uid ∈ (madeRoom recent).map BaseLite.uid) :
    pushRecentWorldChatPlayer recent profile = madeRoom recent := by
  refine if_pos (List.any_eq_true.mpr ?_)
  obtain ⟨p, hp, heq⟩ := List.mem_map.mp h
  exact ⟨p, hp, decide_eq_true heq⟩

theorem push_of_not_mem (h : profile.uid ∉ (madeRoom recent).map BaseLite.uid) :
    pushRecentWorldChatPlayer recent profile = profile :: madeRoom recent := by
  refine if_neg fun hany => h ?_
  obtain ⟨p, hp, heq⟩ := List.any_eq_true.mp hany
  exact List.mem_map.mpr ⟨p, hp, of_decide_eq_true heq⟩

/-- The speaker is in the list after every push. -/
theorem mem_push (recent : List BaseLite) (profile : BaseLite) :
    profile.uid ∈ (pushRecentWorldChatPlayer recent profile).map BaseLite.uid := by
  by_cases h : profile.uid ∈ (madeRoom recent).map BaseLite.uid
  · rwa [push_of_mem h]
  · rw [push_of_not_mem h, List.map_cons]
    exact List.mem_cons_self

namespace Recent

theorem length_le (h : Recent spoken recent) : recent.length ≤ 5 := by
  rw [h.count]
  exact Nat.min_le_left _ _

/-- Until the list is full everybody who has spoken is in it. -/
theorem mem_of_spoken (h : Recent spoken recent) (hshort : recent.length < 5) {uid : UInt32}
    (huid : uid ∈ speakers spoken) : uid ∈ recent.map BaseLite.uid := by
  have hcount := h.count
  have hsub : (recent.map BaseLite.uid).toFinset ⊆ speakers spoken := by
    intro u hu
    obtain ⟨p, hp, rfl⟩ := List.mem_map.mp (List.mem_toFinset.mp hu)
    exact h.subset p hp
  have hcard : (speakers spoken).card ≤ (recent.map BaseLite.uid).toFinset.card := by
    rw [List.toFinset_card_of_nodup h.distinct, List.length_map]
    omega
  rw [← Finset.eq_of_subset_of_card_le hsub hcard] at huid
  exact List.mem_toFinset.mp huid

theorem madeRoom_eq (h : Recent spoken recent) : madeRoom recent = recent.take 4 := by
  have hle := h.length_le
  unfold madeRoom
  split
  · rw [List.dropLast_eq_take, show recent.length - 1 = 4 by omega]
  · rw [List.take_of_length_le (by omega)]

/-- One message more, when the speaker is not in the list that room has been made in. -/
theorem push_new (h : Recent spoken recent)
    (hnew : profile.uid ∉ (recent.take 4).map BaseLite.uid)
    (hcount : (recent.take 4).length + 1 = min 5 (insert profile.uid (speakers spoken)).card) :
    Recent (spoken ++ [profile]) (pushRecentWorldChatPlayer recent profile) := by
  rw [push_of_not_mem (h.madeRoom_eq ▸ hnew), h.madeRoom_eq]
  refine ⟨?_, ?_, ?_⟩
  · rw [List.map_cons, List.nodup_cons]
    exact ⟨hnew, h.distinct.sublist ((List.take_sublist 4 recent).map _)⟩
  · rw [List.length_cons, speakers_concat, hcount]
  · intro p hp
    rw [speakers_concat, Finset.mem_insert]
    rcases List.mem_cons.mp hp with rfl | hp
    · exact .inl rfl
    · exact .inr (h.subset p (List.mem_of_mem_take hp))

theorem push (h : Recent spoken recent) (hspared : Spared recent profile) :
    Recent (spoken ++ [profile]) (pushRecentWorldChatPlayer recent profile) := by
  have hcount := h.count
  by_cases hshort : recent.length < 5
  · have hall : recent.take 4 = recent := List.take_of_length_le (by omega)
    by_cases hmem : profile.uid ∈ recent.map BaseLite.uid
    · -- the speaker is in the list, which nothing is taken from
      obtain ⟨p, hp, heq⟩ := List.mem_map.mp hmem
      have hspoken : speakers (spoken ++ [profile]) = speakers spoken := by
        rw [speakers_concat, ← heq, Finset.insert_eq_of_mem (h.subset p hp)]
      have hroom : madeRoom recent = recent := h.madeRoom_eq.trans hall
      rw [push_of_mem (hroom.symm ▸ hmem), hroom]
      exact ⟨h.distinct, hspoken ▸ h.count, hspoken ▸ h.subset⟩
    · have hnew : profile.uid ∉ speakers spoken := fun hin => hmem (h.mem_of_spoken hshort hin)
      refine h.push_new (hall.symm ▸ hmem) ?_
      rw [hall, Finset.card_insert_of_notMem hnew]
      omega
  · have hfive : recent.length = 5 := by
      have hle := h.length_le
      omega
    have hmore := Finset.card_le_card (Finset.subset_insert profile.uid (speakers spoken))
    refine h.push_new (hspared hfive) ?_
    rw [List.length_take]
    omega

/-- A speaker who is not spared leaves the list one short. -/
theorem not_right_push (h : Recent spoken recent) (hnot : ¬ Spared recent profile) :
    ¬ RecentRight (spoken ++ [profile]) (pushRecentWorldChatPlayer recent profile) := by
  intro hright
  have hcount := h.count
  have hcount' := hright.count
  obtain ⟨hfive, hmem⟩ : recent.length = 5 ∧ profile.uid ∈ (recent.take 4).map BaseLite.uid := by
    unfold Spared at hnot
    exact ⟨by_contra fun hne => hnot fun h => absurd h hne,
      by_contra fun hnew => hnot fun _ => hnew⟩
  have hmore := Finset.card_le_card (Finset.subset_insert profile.uid (speakers spoken))
  rw [push_of_mem (h.madeRoom_eq ▸ hmem), h.madeRoom_eq, List.length_take,
    speakers_concat] at hcount'
  omega

theorem right_push (h : Recent spoken recent) (hspared : Spared recent profile) :
    RecentRight (spoken ++ [profile]) (pushRecentWorldChatPlayer recent profile) := by
  have hpush := h.push hspared
  refine ⟨hpush.distinct, hpush.count, ?_⟩
  intro p hp
  rw [List.getLast?_concat, Option.mem_some_iff] at hp
  exact hp ▸ mem_push recent profile

end Recent

/-- From any list that is right so far. -/
theorem right_after_each_iff (h : Recent spoken recent) (messages : List BaseLite) :
    (∀ before profile after, messages = before ++ profile :: after →
      RecentRight (spoken ++ (before ++ [profile]))
        (Lib.run pushRecentWorldChatPlayer recent (before ++ [profile]))) ↔
      Lib.Along pushRecentWorldChatPlayer Spared recent messages := by
  induction messages generalizing spoken recent with
  | nil =>
      refine iff_of_true ?_ trivial
      intro before profile after heq
      exact absurd heq.symm (List.append_ne_nil_of_right_ne_nil _ (List.cons_ne_nil _ _))
  | cons m ms ih =>
      constructor
      · intro hall
        have hspared : Spared recent m := by
          by_contra hnot
          exact h.not_right_push hnot (hall [] m ms rfl)
        refine ⟨hspared, (ih (h.push hspared)).mp ?_⟩
        intro before profile after heq
        have hright := hall (m :: before) profile after (by rw [heq]; rfl)
        rwa [List.append_assoc]
      · rintro ⟨hspared, hrest⟩ before profile after heq
        cases before with
        | nil =>
            obtain ⟨rfl, -⟩ := List.cons.inj heq
            exact h.right_push hspared
        | cons m' before =>
            obtain ⟨rfl, htail⟩ := List.cons.inj heq
            have hright := (ih (h.push hspared)).mpr hrest before profile after htail
            rwa [List.append_assoc] at hright

end

/-- **After each message the list is right iff all speakers were spared**: whoever spoke while the
    list was full was not among its first four. -/
theorem recentRight_iff (messages : List BaseLite) :
    (∀ before profile after, messages = before ++ profile :: after →
      RecentRight (before ++ [profile])
        (Lib.run pushRecentWorldChatPlayer [] (before ++ [profile]))) ↔
      Lib.Along pushRecentWorldChatPlayer Spared [] messages :=
  right_after_each_iff recent_nil messages

/-- A message of the player with the given uid. -/
def spokenBy (uid : UInt32) : BaseLite := ⟨uid, 1, [], 10⟩

/-- Five players speak, and then the fifth once more: four are left. -/
theorem not_recentRight_again :
    ¬ RecentRight ([1, 2, 3, 4, 5, 5].map spokenBy)
        (Lib.run pushRecentWorldChatPlayer [] ([1, 2, 3, 4, 5, 5].map spokenBy)) ∧
      (Lib.run pushRecentWorldChatPlayer [] ([1, 2, 3, 4, 5, 5].map spokenBy)).map BaseLite.uid =
        [5, 4, 3, 2] := by
  refine ⟨fun h => absurd h.count (by decide), by decide⟩

end LocalWorld

end Jengine.LogicServer
