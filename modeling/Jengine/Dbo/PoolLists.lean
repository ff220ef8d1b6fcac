import Jengine.Dbo.Ownership

/-!
# The lists of the pool

`RealConnectionPool` with its three lists (`base/dbo_bk/internal/realconnectionpool.cpp`):
a `RealConnection` is in `pending_` while it connects and is authorized, in `free_` until
a `Connection` gets it, and in `busy_` until that one is destroyed.  `Close` takes the
socket out of epoll and leaves `connect_` as it is; the dispatcher calls `OnEventIOClose`
at the end of its round.  In between, packets that have been read are still handled, and
the pool takes the connection for a good one.

The results of `connect`, the packets and the moments of `Close` are in the actions.
`OnEventIOClose` is two of them, since the callback of a statement runs before the pool
lets go.  An exception out of a handler of the dispatcher or out of a destructor ends the
process.
-/

namespace Jengine.Dbo

open Jengine.Lib

inductive ConnectionPhase where
  | initHandshake
  | handshakeResponse
  | ok
deriving DecidableEq

/-- How the call of `connect` ends. -/
inductive ConnectResult where
  | connected
  | inProgress
  | refused
deriving DecidableEq

/-- A `RealConnection` is given to a `Connection`. -/
structure Assignment where
  real : Nat
  conn : Nat
  /-- `closed()` at that moment. -/
  closed : Bool
deriving DecidableEq

structure PoolLists extends RealConnectionPool where
  poolSize : Nat
  pending : List Nat
  connectPending : Nat → Bool
  phase : Nat → ConnectionPhase
  /-- The callbacks of `OnClose` run, the pool has not let go. -/
  closing : List Nat
  assigned : List Assignment

/-- The `RealConnection`s that the loop of `CheckAquireList` gives away, up to an exception. -/
def RealConnectionPool.takes (s : RealConnectionPool) : List Nat → List Nat → List (Nat × Nat)
  | r :: free, c :: queue =>
      (r, c) :: if (s.onAquireRealConnectionSuccess c r).2 = none then s.takes free queue else []
  | _, _ => []

namespace PoolLists

/-- A pool that has been constructed. -/
def constructed (poolSize : Nat) : PoolLists where
  toRealConnectionPool := .start
  poolSize := poolSize
  pending := []
  connectPending := fun _ => false
  phase := fun _ => .initHandshake
  closing := []
  assigned := []

def setReal (s : PoolLists) (r : Nat) (real : RealConnection) : PoolLists :=
  { s with reals := Function.update s.reals r real }

/-- A new `RealConnection` is pending. -/
def newConnection (s : PoolLists) : PoolLists :=
  { s with
    reals := Function.update s.reals s.realCount
      { RealConnection.authorized with connect := false }
    connectPending := Function.update s.connectPending s.realCount false
    phase := Function.update s.phase s.realCount .initHandshake
    realCount := s.realCount + 1
    pending := s.pending ++ [s.realCount] }

/-- `OnConnectFail` of the pool, then `Close`. -/
def onConnectFail (s : PoolLists) (r : Nat) : PoolLists :=
  { s.setReal r { s.reals r with closed := true } with pending := s.pending.filter (· ≠ r) }

/-- `CreateNewConnection`, with `Connect`. -/
def createNewConnection (s : PoolLists) (result : ConnectResult) : PoolLists :=
  let r := s.realCount
  let s' := s.newConnection
  match result with
  | .connected => s'.setReal r { s'.reals r with connect := true }
  | .inProgress => { s' with connectPending := Function.update s'.connectPending r true }
  | .refused => s'.onConnectFail r

def createNewConnections (results : Nat → ConnectResult) : Nat → PoolLists → PoolLists
  | 0, s => s
  | n + 1, s => createNewConnections results n (s.createNewConnection (results s.realCount))

/-- `Setup` of a pool. -/
def setup (poolSize : Nat) (results : Nat → ConnectResult) : PoolLists :=
  createNewConnections results poolSize (constructed poolSize)

/-- `CheckCreateMore`. -/
def checkCreateMore (s : PoolLists) (results : Nat → ConnectResult) : PoolLists :=
  let exist := s.busy.length + s.free.length + s.pending.length
  createNewConnections results (s.poolSize - exist) s

/-- The loop of `CheckAquireList`, and how it ends. -/
def checkAquire : Nat → PoolLists → PoolLists × Option Exit
  | 0, s => (s, none)
  | n + 1, s =>
      match s.free, s.aquireList with
      | r :: free, c :: rest =>
          let got := RealConnectionPool.onAquireRealConnectionSuccess
            { s.toRealConnectionPool with
              free := free, aquireList := rest, busy := s.busy ++ [r] } c r
          let s' := { s with
            toRealConnectionPool := got.1
            assigned := s.assigned ++ [⟨r, c, (s.reals r).closed⟩] }
          if got.2 = none then checkAquire n s' else (s', got.2)
      | _, _ => (s, none)

def checkAquireList (s : PoolLists) : PoolLists × Option Exit :=
  checkAquire s.aquireList.length s

/-- The new `Connection` is in the list. -/
def ask (s : PoolLists) : PoolLists :=
  { s with
    conns := Function.update s.conns s.connCount ⟨true, none, none⟩
    connCount := s.connCount + 1
    aquireList := s.aquireList ++ [s.connCount] }

/-- `Connection::Create`, with `AquireRealConnection`. -/
def create (s : PoolLists) (results : Nat → ConnectResult) : PoolLists :=
  let got := s.ask.checkAquireList
  if got.2 = none then got.1.checkCreateMore results else got.1

/-- The authorized `RealConnection` is free. -/
def pendingToFree (s : PoolLists) (r : Nat) : PoolLists :=
  { s with pending := s.pending.filter (· ≠ r), free := s.free ++ [r] }

/-- `HandleAuthResponse`; `OnAuthFail` writes to the log. -/
def handleAuthResponse (s : PoolLists) (r : Nat) (flag : UInt8) : PoolLists :=
  if flag = packetOk then
    let got := (s.pendingToFree r).checkAquireList
    if got.2 = none then { got.1 with phase := Function.update got.1.phase r .ok }
    else { got.1 with aborted := true }
  else s

/-- The released `RealConnection` has no data handler and is not busy. -/
def takeBack (s : PoolLists) (r : Nat) : PoolLists :=
  { s with
    reals := Function.update s.reals r { s.reals r with dataHandler := none }
    busy := s.busy.filter (· ≠ r) }

/-- The state in which `ReleaseRealConnection` calls `CheckAquireList`. -/
def busyToFree (s : PoolLists) (r : Nat) : PoolLists :=
  { s.takeBack r with free := s.free ++ [r] }

/-- `ReleaseRealConnection`. -/
def releaseRealConnection (s : PoolLists) (r : Nat) : PoolLists × Option Exit :=
  if (s.reals r).connect = true then (s.busyToFree r).checkAquireList else (s.takeBack r, none)

/-- The destructor runs: the `Connection` does not live any more. -/
def dying (s : PoolLists) (c : Nat) : PoolLists :=
  { s with conns := Function.update s.conns c { s.conns c with alive := false } }

/-- The destructor has run. -/
def dead (s : PoolLists) (c : Nat) : PoolLists :=
  { s with conns := Function.update s.conns c ⟨false, none, none⟩ }

/-- `Connection::~Connection`. -/
def destroy (s : PoolLists) (c : Nat) : PoolLists :=
  match (s.conns c).realconn with
  | none => s.dead c
  | some r =>
      let got := (s.dying c).releaseRealConnection r
      if got.2 = none then got.1.dead c else { got.1.dead c with aborted := true }

/-- `CheckIfConnectCompleted`. -/
def checkIfConnectCompleted (s : PoolLists) (r : Nat) (ok : Bool) : PoolLists :=
  let s' := { s with connectPending := Function.update s.connectPending r false }
  if ok = true then s'.setReal r { s.reals r with connect := true } else s'.onConnectFail r

/-- `OnEventIOClose`, up to the call of the pool. -/
def onEventIOClose (s : PoolLists) (r : Nat) : PoolLists :=
  { s.setReal r { s.reals r with connect := false } with closing := r :: s.closing }

/-- `OnClose` of the pool. -/
def onClose (s : PoolLists) (r : Nat) : PoolLists :=
  { s with
    pending := s.pending.filter (· ≠ r)
    free := s.free.filter (· ≠ r)
    busy := s.busy.filter (· ≠ r)
    closing := s.closing.filter (· ≠ r) }

/-- `Cleanup`. -/
def cleanup (s : PoolLists) : PoolLists :=
  { s with
    aquireList := []
    reals := fun r =>
      if r ∈ s.pending ++ s.free then { s.reals r with closed := true } else s.reals r
    pending := s.pending.filter fun r => (s.reals r).connect
    free := s.free.filter fun r => (s.reals r).connect }

inductive Action where
  | connectCompleted (r : Nat) (ok : Bool)
  | handshake (r : Nat)
  | authResponse (r : Nat) (flag : UInt8)
  | receive (r : Nat) (pktin : PacketIn)
  | close (r : Nat)
  | ioClose (r : Nat)
  | poolClose (r : Nat)
  | cleanup
  | create (results : Nat → ConnectResult)
  | createStatement (c : Nat) (sql : String)
  | createPreparedStatement (c : Nat) (sql : String)
  | setParam (c : Nat)
  | execute (c : Nat)
  | destroy (c : Nat)

/-- What a living `Connection` does with its statement. -/
def onStatement (s : PoolLists) (c : Nat) (f : RealConnectionPool → RealConnectionPool) :
    PoolLists :=
  if (s.conns c).alive = true then { s with toRealConnectionPool := f s.toRealConnectionPool }
  else s

/-- A packet comes over a `RealConnection` in this phase. -/
def Receives (s : PoolLists) (r : Nat) (phase : ConnectionPhase) : Prop :=
  (s.reals r).connect = true ∧ s.phase r = phase

instance (s : PoolLists) (r : Nat) (phase : ConnectionPhase) : Decidable (s.Receives r phase) :=
  inferInstanceAs (Decidable (_ ∧ _))

/-- The destructor of a `Connection` can be called: the list holds no reference. -/
def Dies (s : PoolLists) (c : Nat) : Prop := (s.conns c).alive = true ∧ c ∉ s.aquireList

instance (s : PoolLists) (c : Nat) : Decidable (s.Dies c) :=
  inferInstanceAs (Decidable (_ ∧ _))

/-- The steps of a pool whose process has not ended. -/
def act (s : PoolLists) : Action → PoolLists
  | .connectCompleted r ok =>
      if s.connectPending r = true ∧ (s.reals r).closed = false then s.checkIfConnectCompleted r ok
      else s
  | .handshake r =>
      if s.Receives r .initHandshake then
        { s with phase := Function.update s.phase r .handshakeResponse }
      else s
  | .authResponse r flag =>
      if s.Receives r .handshakeResponse then s.handleAuthResponse r flag else s
  | .receive r pktin =>
      if s.Receives r .ok then
        { s with toRealConnectionPool := s.toRealConnectionPool.onReceivePacket r pktin }
      else s
  | .close r => s.setReal r { s.reals r with closed := true }
  | .ioClose r =>
      if (s.reals r).closed = true ∧ (s.reals r).connect = true then s.onEventIOClose r else s
  | .poolClose r => if r ∈ s.closing then s.onClose r else s
  | .cleanup => s.cleanup
  | .create results => s.create results
  | .createStatement c sql => s.onStatement c (·.createStatement c sql (.statement .statementNew))
  | .createPreparedStatement c sql =>
      s.onStatement c (·.createStatement c sql (.prepared ⟨.prepareNew, 0, 0⟩))
  | .setParam c => s.onStatement c (·.setParam c)
  | .execute c => s.onStatement c (·.execute c)
  | .destroy c => if s.Dies c then s.destroy c else s

def step (s : PoolLists) (a : Action) : PoolLists := if s.aborted = true then s else s.act a

/-- The state in which `CheckAquireList` is called, if the step calls it. -/
def check (s : PoolLists) : Action → Option PoolLists
  | .authResponse r flag =>
      if s.Receives r .handshakeResponse ∧ flag = packetOk then some (s.pendingToFree r) else none
  | .create _ => some s.ask
  | .destroy c =>
      if s.Dies c then
        (s.conns c).realconn.bind fun r =>
          if (s.reals r).connect = true then some ((s.dying c).busyToFree r) else none
      else none
  | _ => none

/-- The front of the free list, for those who wait. -/
def front (s : PoolLists) : List Assignment :=
  (s.takes s.free s.aquireList).map fun x => ⟨x.1, x.2, (s.reals x.1).closed⟩

/-- What the step takes from the front of the free list has not been closed. -/
def HandsOpen (s : PoolLists) (a : Action) : Prop :=
  s.aborted = false → ∀ p ∈ s.check a, ∀ x ∈ p.front, x.closed = false

/-- No `RealConnection` is between `Close` and `OnClose` at the wrong moment: the first of the
    free list when a `Connection` is created, and one that is authorized or released while
    another `Connection` waits. -/
def NoneClosing (s : PoolLists) : Action → Prop
  | .create _ => s.aborted = false → ∀ r ∈ s.free.head?, (s.reals r).closed = false
  | .authResponse r flag => s.aborted = false → s.Receives r .handshakeResponse →
      flag = packetOk → s.aquireList ≠ [] → (s.reals r).closed = false
  | .destroy c => s.aborted = false → s.Dies c → ∀ r ∈ (s.conns c).realconn,
      (s.reals r).connect = true → s.aquireList ≠ [] → (s.reals r).closed = false
  | _ => True

def lists (s : PoolLists) : List Nat := s.pending ++ s.free ++ s.busy

/-- The connection stands or is being made. -/
def Live (s : PoolLists) (r : Nat) : Prop :=
  (s.reals r).connect = true ∨ s.connectPending r = true ∧ (s.reals r).closed = false

/-- The lists are right: `Connection`s are numbered in the order in which they ask. -/
structure Right (s : PoolLists) : Prop where
  once : ∀ r, s.Live r → s.lists.count r = 1
  bounded : s.lists.length ≤ s.poolSize
  alone : ∀ c c' r, (s.conns c).held = some r → (s.conns c').held = some r → c = c'
  handler : ∀ r ∈ s.busy, ∃ c, (s.conns c).held = some r ∧ (s.reals r).dataHandler = some c
  ordered : (s.assigned.map (·.conn) ++ s.aquireList).Pairwise (· < ·)
  opened : ∀ x ∈ s.assigned, x.closed = false

end PoolLists

end Jengine.Dbo
