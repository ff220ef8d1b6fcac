import Jengine.Event.Dispatcher
import Mathlib.Logic.Function.Basic

/-!
# The gateway and its sessions

`Gateway` (`base/gateway/gateway.cpp`) with the session manager of the gate server
(`gateserver/sessionmanager.cpp`, `gateserver/gatesession.cpp`) on top of the
dispatcher.  A client is created by the gateway, retained by the dispatcher and
retained by its session.  Closing is deferred; when the dispatcher finalises a
client, the session is destroyed first, then the gateway lets go of the client, and
the dispatcher last.

Clients and sessions are numbered in the order they are created; the listener is
`none` among the objects of the dispatcher.  Any code may close clients between any
two steps.
-/

namespace Jengine.Gateway

open Jengine.Lib Jengine.Event

structure GateServer (κ : Type) where
  maxConnections : Nat
  dispatcher : Dispatcher (Option Nat)
  /-- How many clients have been created. -/
  created : Nat
  /-- `reference_count_` of a client. -/
  ref : Nat → Nat
  connect : Nat → Bool
  /-- `session_` of a client. -/
  session : Nat → Option Nat
  clients : List Nat
  /-- How many sessions have been created. -/
  sessions : Nat
  /-- `reference_count_` of a session. -/
  sessionRef : Nat → Nat
  /-- `client_` of a session. -/
  client : Nat → Nat
  players : List Nat
  /-- `listener_` is not null. -/
  listener : Bool
  isCleanup : Bool
  cleanupFinshCb : Option κ
  /-- The calls of the callback, with the size of `clients_` at each. -/
  invoked : List (κ × Nat)
  /-- How often `BeginCleanup` was called. -/
  begun : Nat
  /-- How often the callback was called since. -/
  since : Nat
  /-- The assertion of `OnUserClientClose` has failed. -/
  failed : Bool

namespace GateServer

variable {κ : Type}

/-- After `Setup`. -/
def start (maxConnections : Nat) : GateServer κ where
  maxConnections := maxConnections
  dispatcher := Dispatcher.start.add none
  created := 0
  ref := fun _ => 0
  connect := fun _ => false
  session := fun _ => none
  clients := []
  sessions := 0
  sessionRef := fun _ => 0
  client := fun _ => 0
  players := []
  listener := true
  isCleanup := false
  cleanupFinshCb := none
  invoked := []
  begun := 0
  since := 0
  failed := false

/-- `Retain` on a client. -/
def retain (s : GateServer κ) (c : Nat) : GateServer κ :=
  { s with ref := Function.update s.ref c (s.ref c + 1) }

/-- `Release` on a client. -/
def release (s : GateServer κ) (c : Nat) : GateServer κ :=
  { s with ref := Function.update s.ref c (s.ref c - 1) }

/-- `Close` on a client. -/
def close (s : GateServer κ) (c : Nat) : GateServer κ :=
  { s with dispatcher := s.dispatcher.close (some c) }

/-- `CheckIfCleanupFinish`. -/
def checkIfCleanupFinish (s : GateServer κ) : GateServer κ :=
  if s.isCleanup = true ∧ s.clients = [] then
    match s.cleanupFinshCb with
    | some cb => { s with invoked := s.invoked ++ [(cb, s.clients.length)], since := s.since + 1 }
    | none => s
  else s

/-- `CreateSession`; `Setup` of a session always succeeds. -/
def createSession (s : GateServer κ) (c : Nat) : GateServer κ :=
  let s := { s with
    sessions := s.sessions + 1
    sessionRef := Function.update s.sessionRef s.sessions 1
    session := Function.update s.session c (some s.sessions)
    client := Function.update s.client s.sessions c
    players := s.sessions :: s.players }
  s.retain c

/-- `Release` on a session: `~UserSession` releases the client. -/
def releaseSession (s : GateServer κ) (p : Nat) : GateServer κ :=
  let s := { s with sessionRef := Function.update s.sessionRef p (s.sessionRef p - 1) }
  if s.sessionRef p = 0 then s.release (s.client p) else s

/-- `DeleteSession`. -/
def deleteSession (s : GateServer κ) (p : Nat) : GateServer κ :=
  releaseSession { s with players := s.players.erase p } p

/-- `OnListenerAccept`, with everything up to `OnUserClientConnect`. -/
def onListenerAccept (s : GateServer κ) : GateServer κ :=
  if s.maxConnections ≤ s.clients.length then s
  else
    let c := s.created
    -- `new UserClient` and `Connect`
    let s := { s with
      created := s.created + 1
      ref := Function.update s.ref c 1
      dispatcher := s.dispatcher.add (some c) }
    let s := { s.retain c with connect := Function.update s.connect c true }
    createSession { s with clients := c :: s.clients } c

/-- `Gateway::OnUserClientClose`. -/
def onUserClientClose (s : GateServer κ) (c : Nat) : GateServer κ :=
  let s :=
    match s.session c with
    | some p => s.deleteSession p
    | none => s
  let s := { s with session := Function.update s.session c none }
  let s := { s with failed := s.failed || s.clients.count c != 1, clients := s.clients.erase c }
  (s.release c).checkIfCleanupFinish

/-- `Client::OnEventIOClose`. -/
def onEventIOClose (s : GateServer κ) (c : Nat) : GateServer κ :=
  if s.connect c then
    onUserClientClose { s with connect := Function.update s.connect c false } c
  else s

/-- `StopListener`. -/
def stopListener (s : GateServer κ) : GateServer κ :=
  if s.listener then { s with dispatcher := s.dispatcher.close none, listener := false } else s

/-- `BeginCleanup`. -/
def beginCleanup (s : GateServer κ) (cb : κ) : GateServer κ :=
  let s := { s with isCleanup := true, cleanupFinshCb := some cb, begun := s.begun + 1, since := 0 }
  let s := s.stopListener
  (s.clients.foldl close s).checkIfCleanupFinish

/-- The next step of the dispatcher, with what it calls. -/
def next (s : GateServer κ) : GateServer κ :=
  let called :=
    match s.dispatcher.phase with
    | .draining =>
        match s.dispatcher.closedIoList with
        | some c :: _ => s.onEventIOClose c
        | _ => s
    | .finalizing (some c) => s.release c
    | _ => s
  { called with dispatcher := s.dispatcher.next }

inductive Action (κ : Type) where
  /-- The listener accepts a connection. -/
  | accept
  /-- A client is closed: by its peer, by a broken packet, by an error. -/
  | close (c : Nat)
  /-- A packet for a session, whose handler may ask for its exit. -/
  | packet (p : Nat) (exits : Bool)
  /-- `GatewayManager::Stop`, with `DisconnectAllSession`. -/
  | stop
  | beginCleanup (cb : κ)
  /-- `epoll_wait` returns. -/
  | wait (batch : List (Ready (Option Nat)))
  | next

def step (s : GateServer κ) : Action κ → GateServer κ
  | .accept => if s.dispatcher.registered none then s.onListenerAccept else s
  | .close c => s.close c
  | .packet p exits => if exits = true ∧ p ∈ s.players then s.close (s.client p) else s
  | .stop => s.players.foldl (fun s p => s.close (s.client p)) s.stopListener
  | .beginCleanup cb => s.beginCleanup cb
  | .wait batch => { s with dispatcher := s.dispatcher.step (.wait batch) }
  | .next => s.next

end GateServer

end Jengine.Gateway
