import Jengine.Cluster.Message
import Jengine.Lib.Tables
import Jengine.Utils.IntrusiveList

/-!
# The players of a server

`LocalWorld` (`logicserver/localworld.h`, `localworld.cpp`) keeps the sessions that are connected
to this server, the players of all servers with what is known of them, and who spoke last in the
world chat.

`globals_` is an unordered map.  Here it is the list of its entries in the order of its iteration,
and between two calls the order may change to any other.  The components of a session and the
profile of a player are declared outside the repository; of these there is what the world reads.
-/

namespace Jengine.LogicServer

open Jengine.Cluster (MailboxID Name Reader)
open Jengine.Lib (Table)
open Jengine.Utils (IntrusiveLists)

/-- `model::profile::Public`: `base.puid.uid` and `base.nickname`. -/
structure Public where
  uid : UInt32
  nickname : Name
deriving DecidableEq, Repr

/-- `model::profile::BaseLite`. -/
structure BaseLite where
  uid : UInt32
  profession : UInt32
  nickname : Name
  level : UInt32
deriving DecidableEq, Repr

/-! ### Players -/

/-- `LocalWorld::Player`. -/
structure Player where
  uid : UInt32
  mbid : MailboxID
  lru : Int
  profile : Option Public
deriving DecidableEq, Repr

namespace Player

/-- The constructor. -/
def make (uid : UInt32) : Player := ⟨uid, .nullID, 0, none⟩

def online (p : Player) : Bool := p.mbid.valid

/-- `FetchProfile`: the profile, and the time of this access. -/
def fetchProfile (p : Player) (tick : Int) : Option Public × Player :=
  (p.profile, if p.profile = none then p else { p with lru := tick })

def setOnline (p : Player) (mbid : MailboxID) : Player := { p with mbid := mbid }

def setOffline (p : Player) : Player := { p with mbid := .nullID }

end Player

/-! ### The world -/

/-- `comp::Chat`, `chat_switch.world`. -/
structure Chat where
  world : Nat
deriving DecidableEq, Repr

/-- `comp::Character`: `level()` and `info().table().profession`. -/
structure Character where
  level : UInt32
  profession : UInt32
deriving DecidableEq, Repr

/-- What the world uses of a `PlayerSession`; a component that is not set up has no pointer. -/
structure Session where
  uid : UInt32
  chat : Option Chat
  character : Option Character
deriving DecidableEq, Repr

/-- `LocalWorld`; a session is named by a number. -/
structure LocalWorld where
  players : IntrusiveLists Unit Nat
  sessions : Nat → Session
  globals : List (UInt32 × Player)
  nicknameUidIndex : Table Name UInt32
  recentWorldchatPlayers : List BaseLite

namespace LocalWorld

/-- The constructor. -/
def make : LocalWorld := ⟨.make, fun _ => ⟨0, none, none⟩, [], ∅, []⟩

/-- `Create`, of a session whose `Setup` succeeds, as the one of a session always does. -/
def create (w : LocalWorld) (session : Nat) (s : Session) : LocalWorld :=
  { w with
    sessions := Function.update w.sessions session s
    players := w.players.pushFront () session }

/-- `Delete`. -/
def delete (w : LocalWorld) (player : Nat) : LocalWorld :=
  { w with players := (w.players.erase () player).1 }

/-- `globals_.find`. -/
def find (w : LocalWorld) (uid : UInt32) : Option Player := w.globals.lookup uid

/-- `it->second`, changed. -/
def modify (w : LocalWorld) (uid : UInt32) (f : Player → Player) : LocalWorld :=
  { w with globals := w.globals.map fun e => if e.1 = uid then (e.1, f e.2) else e }

/-- The entry is found, or a new player is emplaced. -/
def findOrEmplace (w : LocalWorld) (uid : UInt32) : LocalWorld :=
  match w.find uid with
  | none => { w with globals := (uid, Player.make uid) :: w.globals }
  | some _ => w

/-- `UpdatePublicProfile`. -/
def updatePublicProfile (w : LocalWorld) (uid : UInt32) (profile : Public) : LocalWorld :=
  let w := (w.findOrEmplace uid).modify uid fun p => { p with profile := some profile }
  if profile.nickname = [] then w
  else { w with nicknameUidIndex := w.nicknameUidIndex.insert profile.nickname uid }

/-- `QueryCachedPlayerPfofile`, at the time `tick`. -/
def queryCachedPlayerProfile (w : LocalWorld) (uid : UInt32) (tick : Int) :
    Option Public × LocalWorld :=
  ((w.find uid).bind fun p => (p.fetchProfile tick).1,
    w.modify uid fun p => (p.fetchProfile tick).2)

/-- `QueryCachedPlayerUID`. -/
def queryCachedPlayerUID (w : LocalWorld) (nickname : Name) : UInt32 :=
  (w.nicknameUidIndex.lookup nickname).getD 0

/-- `CleanupExpirePlayer`, at the time `nowTick`. -/
def cleanupExpirePlayer (w : LocalWorld) (nowTick : Int) : LocalWorld :=
  { w with
    globals := w.globals.filter fun e => e.2.online || decide (nowTick - e.2.lru ≤ 1000 * 60 * 5) }

/-- `UPDATE_TO_ONLINE`. -/
def updateToOnline (w : LocalWorld) (uid : UInt32) (mbid : MailboxID) : LocalWorld :=
  (w.findOrEmplace uid).modify uid fun p => p.setOnline mbid

/-- `UPDATE_TO_OFFLINE`. -/
def updateToOffline (w : LocalWorld) (uid : UInt32) : LocalWorld :=
  w.modify uid Player.setOffline

/-- `PushRecentWorldChatPlayer`. -/
def pushRecentWorldChatPlayer (recent : List BaseLite) (profile : BaseLite) : List BaseLite :=
  let recent := if 5 ≤ recent.length then recent.dropLast else recent
  if recent.any fun p => p.uid = profile.uid then recent else profile :: recent

end LocalWorld

end Jengine.LogicServer
