import Jengine.Cluster.Configure
import Jengine.Cluster.Message
import Jengine.Lib.Runs
import Jengine.Lib.Tables
import Mathlib.Logic.Function.Basic

/-!
# The node monitor

`NodeMonitor` and `Connector` (`base/cluster/nodemonitor.h`, `nodemonitor.cpp`):
a node connects to the nodes its configuration links it to, accepts connections
from others, authenticates what comes over a connection by a cookie, and keeps
the table of named mailboxes of all connected nodes.

The model is a machine.  A connector is known by a number; `conns` holds what
the connector object holds, and the two containers hold numbers.  What a
handler does to the outside goes to `out`: messages sent, callbacks run, events
triggered.  What the outside decides is in the action: the results of
`connect`, `Bind` and `ParseXml`, the bytes that arrive, the errors of a socket.
`Connector::OnReceive` is split into the arrival of bytes and the handling of
one frame, so that what a mailbox handler does to the registry can come between
two frames.  Setup, cleanup and event callbacks do not call back into the
monitor; reference counts of connectors are not modelled.
-/

namespace Jengine.Cluster

open Jengine.Lib Jengine.Gateway

/-- `NodeMonitorState`. -/
inductive MonitorState where
  | inSetup
  | inRollback
  | ok
  | inCleanup
  | stop
deriving DecidableEq, Repr

/-- `NodeInternalCode`. -/
def internalAuth : UInt16 := 1

def internalRegisterNamedMailbox : UInt16 := 3

def internalUnregisterNamedMailbox : UInt16 := 4

/-- `Connector`, with the flags of `net::Client` and `event::EventIO`. -/
structure Connector where
  info : Option NodeInfo
  required : Bool
  connect : Bool
  /-- `connect_pending_`. -/
  pending : Bool
  closed : Bool
  /-- The bytes of `recvq_`. -/
  recvq : List UInt8

namespace Connector

def new (required : Bool) : Connector := ⟨none, required, false, false, false, []⟩

/-- `authed()`. -/
def authed (c : Connector) : Bool := c.info.isSome

/-- The close handler has not run, and need not be skipped. -/
def isOpen (c : Connector) : Bool := c.connect || !c.closed

end Connector

/-- `Mailbox`. -/
structure Mailbox where
  name : Name
  mbid : MailboxID
deriving DecidableEq, Repr

/-- What the monitor does to the outside. -/
inductive Event where
  /-- A message is queued on a connector. -/
  | send (conn : Nat) (msg : Message)
  /-- The callback given to `BeginSetup`. -/
  | setup (result : Bool)
  /-- The callback given to `BeginCleanup`. -/
  | cleanup
  /-- A connector has been authenticated as a node. -/
  | authed (conn : Nat) (id : UInt8)
  /-- `HandleMessageReceive` of a mailbox, with a message from a connector. -/
  | deliver (conn : Nat) (mb : Mailbox) (msg : Message)
  | mailboxUp (name : Name) (mbid : MailboxID)
  | mailboxDown (name : Name)
  | nodeUp (id : UInt8)
  | nodeDown (id : UInt8)
  /-- `framework.Stop()`. -/
  | stopFramework

structure NodeMonitor where
  config : Configure
  state : MonitorState
  /-- `BeginSetup` has been called. -/
  started : Bool
  /-- `listener_` is bound and not closed. -/
  listening : Bool
  conns : Nat → Connector
  /-- The number of the next connector. -/
  next : Nat
  anonymous : List Nat
  connectors : Table UInt8 Nat
  mailboxes : Table UInt32 Mailbox
  named : Table Name MailboxID
  /-- The mailbox objects alive. -/
  boxes : List Mailbox
  /-- `pid_gen_`. -/
  sysCur : Nat
  normalCur : Nat
  out : List Event

namespace NodeMonitor

/-- Before `BeginSetup`. -/
def init (config : Configure) : NodeMonitor where
  config := config
  state := .inSetup
  started := false
  listening := false
  conns := fun _ => Connector.new false
  next := 0
  anonymous := []
  connectors := ∅
  mailboxes := ∅
  named := ∅
  boxes := []
  sysCur := 1
  normalCur := 10000
  out := []

def emit (s : NodeMonitor) (e : Event) : NodeMonitor := { s with out := s.out ++ [e] }

def setConn (s : NodeMonitor) (c : Nat) (conn : Connector) : NodeMonitor :=
  { s with conns := Function.update s.conns c conn }

/-- `Client::Close`. -/
def close (s : NodeMonitor) (c : Nat) : NodeMonitor :=
  s.setConn c { s.conns c with closed := true }

/-- `Connector::SendMessage`.  Nothing goes out over a closed descriptor. -/
def sendMessage (s : NodeMonitor) (c : Nat) (msg : Message) : NodeMonitor :=
  if (s.conns c).connect && !(s.conns c).closed then s.emit (.send c msg) else s

/-- A message of the monitor itself has no sender, receiver or session. -/
def internalMessage (code : UInt16) (payload : List UInt8) : Message :=
  ⟨code, .nullID, .nullID, 0, payload⟩

/-! ### Named mailboxes -/

/-- `IsLocalMailbox`. -/
def isLocalMailbox (s : NodeMonitor) (mbid : MailboxID) : Bool := s.config.info.id == mbid.nodeid

def registerMessage (name : Name) (mbid : MailboxID) : Message :=
  internalMessage internalRegisterNamedMailbox (encodeString name ++ encodeMailboxID mbid)

def unregisterMessage (name : Name) : Message :=
  internalMessage internalUnregisterNamedMailbox (encodeString name)

/-- Send a message over every authenticated connector. -/
def broadcast (s : NodeMonitor) (msg : Message) : NodeMonitor :=
  s.connectors.values.foldl (fun s c => s.sendMessage c msg) s

/-- `OnNamedMailboxUp`. -/
def onNamedMailboxUp (s : NodeMonitor) (name : Name) (mbid : MailboxID) : NodeMonitor :=
  emit { s with named := Table.emplace s.named name mbid } (.mailboxUp name mbid)

/-- `OnNodeUp`: all local named mailboxes are sent to the new node. -/
def onNodeUp (s : NodeMonitor) (c : Nat) (info : NodeInfo) : NodeMonitor :=
  let s' := s.named.entries.foldl (fun s' e =>
    if s.isLocalMailbox e.2 then s'.sendMessage c (registerMessage e.1 e.2) else s') s
  s'.emit (.nodeUp info.id)

/-- `OnNodeDown`: the named mailboxes of the node are removed. -/
def onNodeDown (s : NodeMonitor) (info : NodeInfo) : NodeMonitor :=
  let gone : List Name := (Table.keep s.named fun mbid => mbid.nodeid == info.id).keys
  let s := { s with named := Table.keep s.named fun mbid => mbid.nodeid != info.id
                    out := s.out ++ gone.map Event.mailboxDown }
  s.emit (.nodeDown info.id)

/-- `UnRegister`. -/
def unRegister (s : NodeMonitor) (mb : Mailbox) : NodeMonitor :=
  let s :=
    if mb.name = [] then s
    else
      let s := emit { s with named := s.named.erase mb.name } (.mailboxDown mb.name)
      s.broadcast (unregisterMessage mb.name)
  { s with mailboxes := s.mailboxes.erase mb.mbid.pid }

/-- `ProcessIDGen::Gen`; `none` is the failed assertion. -/
def genPid (s : NodeMonitor) (sys : Bool) : Option (Nat × NodeMonitor) :=
  if sys then
    if s.sysCur < 10000 then some (s.sysCur, { s with sysCur := s.sysCur + 1 }) else none
  else
    let cur := if 2 ^ 24 ≤ s.normalCur + 1 then 1000 else s.normalCur + 1
    some (cur, { s with normalCur := cur + 1 })

/-- `Register` for a mailbox with a new id. -/
def register (s : NodeMonitor) (name : Name) (pid : Nat) : NodeMonitor :=
  let mb : Mailbox := ⟨name, ⟨s.config.info.id, UInt32.ofNat pid⟩⟩
  let s := { s with mailboxes := Table.emplace s.mailboxes mb.mbid.pid mb, boxes := s.boxes ++ [mb] }
  if name = [] then s
  else (s.onNamedMailboxUp name mb.mbid).broadcast (registerMessage name mb.mbid)

/-- Whether `Register` refuses a name. -/
def duplicate (s : NodeMonitor) (name : Name) : Bool := name != [] && (s.named.lookup name).isSome

/-- `Mailbox::Create`, with whether it returned a mailbox.  A mailbox that could not be
    registered is deleted, and its destructor calls `UnRegister`. -/
def create (s : NodeMonitor) (name : Name) (sys : Bool) : Option (NodeMonitor × Bool) :=
  if s.duplicate name then some (s.unRegister ⟨name, .nullID⟩, false)
  else (s.genPid sys).map fun (pid, s) => (s.register name pid, true)

/-- `Mailbox::~Mailbox` of a mailbox that is alive. -/
def destroy (s : NodeMonitor) (mb : Mailbox) : NodeMonitor :=
  if mb ∈ s.boxes then { s.unRegister mb with boxes := s.boxes.erase mb } else s

/-- `SendMessage` to a mailbox on another node.  A message to a local mailbox goes to the
    executor and not over a connection. -/
def cast (s : NodeMonitor) (msg : Message) : NodeMonitor :=
  if s.isLocalMailbox msg.receiver then s
  else
    match s.connectors.lookup msg.receiver.nodeid with
    | some c => s.sendMessage c msg
    | none => s

/-! ### Completion checks -/

/-- `CheckIfAllSetup`. -/
def checkIfAllSetup (s : NodeMonitor) : NodeMonitor :=
  if s.state = .inSetup ∧ s.anonymous = [] then { s.emit (.setup true) with state := .ok } else s

/-- `CheckIfAllRollback`. -/
def checkIfAllRollback (s : NodeMonitor) : NodeMonitor :=
  if s.state = .inRollback ∧ s.anonymous = [] ∧ s.connectors.entries = [] then
    { s.emit (.setup false) with state := .stop }
  else s

/-- `CheckIfAllCleanup`; the executor has no actions left when `quiet`. -/
def checkIfAllCleanup (s : NodeMonitor) (quiet : Bool) : NodeMonitor :=
  if s.state = .inCleanup ∧ s.anonymous = [] ∧ s.connectors.entries = [] ∧ quiet then
    { s.emit .cleanup with state := .stop }
  else s

/-- `CloseAll`: every connector is closed, and those that are not connected are
    dropped at once. -/
def closeAll (s : NodeMonitor) : NodeMonitor :=
  { s with
    listening := false
    conns := fun c =>
      if c ∈ s.anonymous ∨ c ∈ s.connectors.values then { s.conns c with closed := true }
      else s.conns c
    anonymous := s.anonymous.filter fun c => (s.conns c).connect
    connectors := Table.keep s.connectors fun c => (s.conns c).connect }

/-- Setup has failed. -/
def rollback (s : NodeMonitor) : NodeMonitor := closeAll { s with state := .inRollback }

/-! ### Handlers -/

/-- `Connector::OnConnect` (after `connect_` is set): authenticate to the peer. -/
def onConnect (s : NodeMonitor) (c : Nat) : NodeMonitor :=
  let s := s.setConn c { s.conns c with connect := true, pending := false }
  s.sendMessage c (internalMessage internalAuth
    (toLE 1 s.config.info.id.toNat ++ toLE 2 (UInt16.ofNat s.config.cookies.length).toNat ++
      s.config.cookies.flatMap encodeString))

/-- `OnConnectorAuthSuccess`. -/
def onConnectorAuthSuccess (s : NodeMonitor) (c : Nat) (info : NodeInfo) : NodeMonitor :=
  if info.id ∈ s.connectors then s.emit .stopFramework
  else
    let s := { s with connectors := Table.emplace s.connectors info.id c
                      anonymous := s.anonymous.filter (· ≠ c) }
    s.checkIfAllSetup.onNodeUp c info

/-- `OnConnectorAuthFail`. -/
def onConnectorAuthFail (s : NodeMonitor) (c : Nat) : NodeMonitor :=
  let s := { s with anonymous := s.anonymous.filter (· ≠ c) }
  let s := if (s.conns c).required ∧ s.state = .inSetup then s.rollback else s
  s.checkIfAllRollback

/-- `OnConnectorClose`. -/
def onConnectorClose (s : NodeMonitor) (c : Nat) (quiet : Bool) : NodeMonitor :=
  let s :=
    match (s.conns c).info with
    | some info => onNodeDown { s with connectors := s.connectors.erase info.id } info
    | none => { s with anonymous := s.anonymous.filter (· ≠ c) }
  let s := if s.state = .inSetup then s.rollback else s
  (s.checkIfAllCleanup quiet).checkIfAllRollback

/-- The loop over the cookies of an `INTERNAL_AUTH` message. -/
def readCookies (cfg : Configure) : Nat → Reader Bool
  | 0 => return false
  | n + 1 => do
      let cookie ← Reader.readString
      if cfg.isCookieAllow cookie then return true else readCookies cfg n

/-- An `INTERNAL_AUTH` message: the node id, and whether a cookie passed. -/
def readAuth (cfg : Configure) : Reader (UInt8 × Bool) := do
  let nodeid ← Reader.readByte
  let len ← Reader.readUShort
  let passed ← readCookies cfg len.toNat
  return (nodeid, passed)

/-- `Connector::HandleInternalMessage`.  An exception closes the connector. -/
def handleInternalMessage (s : NodeMonitor) (c : Nat) (msg : Message) : NodeMonitor :=
  if msg.code = internalAuth then
    match readAuth s.config msg.payload with
    | none => s.close c
    | some ((nodeid, passed), _) =>
        if passed then
          match s.config.findNodeInfoByID nodeid with
          | some info =>
              onConnectorAuthSuccess
                (emit (s.setConn c { s.conns c with info := some info }) (.authed c info.id)) c info
          | none => s.close c
        else s.close c
  else s

/-- A name with the node it lives on. -/
def qualified (name : Name) (info : NodeInfo) : Name := name ++ 64 :: info.name

/-- `OnConnectorReceiveMessage`.  An exception closes the connector. -/
def onConnectorReceiveMessage (s : NodeMonitor) (c : Nat) (msg : Message) : NodeMonitor :=
  if !msg.receiver.valid then
    match (s.conns c).info with
    | none => s
    | some info =>
        if msg.code = internalRegisterNamedMailbox then
          match (do let name ← Reader.readString; let mbid ← Reader.readMailboxID; return (name, mbid) :
              Reader (Name × MailboxID)) msg.payload with
          | none => s.close c
          | some ((name, mbid), _) => s.onNamedMailboxUp (qualified name info) mbid
        else if msg.code = internalUnregisterNamedMailbox then
          match Reader.readString msg.payload with
          | none => s.close c
          | some (name, _) =>
              if (s.named.lookup (qualified name info)).isSome then
                emit { s with named := s.named.erase (qualified name info) }
                  (.mailboxDown (qualified name info))
              else s
        else s
  else
    match s.mailboxes.lookup msg.receiver.pid with
    | some mb => s.emit (.deliver c mb msg)
    | none => s

/-- What the loop of `Connector::OnReceive` does with one message. -/
def handleMessage (s : NodeMonitor) (c : Nat) (msg : Message) : NodeMonitor :=
  if !msg.receiver.valid && !(s.conns c).authed then s.handleInternalMessage c msg
  else s.onConnectorReceiveMessage c msg

/-- The length of the frame at the front of a receive queue, when it is all there. -/
def frontFrame (recvq : List UInt8) : Option Nat :=
  let pktlen := ofLE (recvq.take 4)
  if Message.headSize ≤ recvq.length ∧ Message.headSize ≤ pktlen ∧ pktlen ≤ recvq.length then
    some pktlen
  else none

/-- One pass of the loop of `Connector::OnReceive`. -/
def handleFrame (s : NodeMonitor) (c : Nat) : NodeMonitor :=
  match frontFrame (s.conns c).recvq with
  | none => s
  | some n =>
      let frame := (s.conns c).recvq.take n
      (s.setConn c { s.conns c with recvq := (s.conns c).recvq.drop n }).handleMessage c
        (Message.ofFrame frame)

/-! ### Setup -/

/-- The result of `connect`. -/
inductive ConnectResult where
  | connected
  | inProgress
  | failed
deriving DecidableEq, Repr

/-- One pass of the connecting loop of `BeginSetup`. -/
def connectLink (s : NodeMonitor) (link : LinkNodeInfo) (result : ConnectResult) : NodeMonitor :=
  let c := s.next
  let s := { s.setConn c (Connector.new link.require) with
             next := c + 1, anonymous := s.anonymous ++ [c] }
  match result with
  | .connected => s.onConnect c
  | .inProgress => s.setConn c { s.conns c with pending := true }
  | .failed => (s.onConnectorAuthFail c).close c

/-- The connecting loop; the results are given in order, and links without one are in
    progress. -/
def connectLinks : NodeMonitor → List LinkNodeInfo → List ConnectResult → NodeMonitor
  | s, [], _ => s
  | s, link :: links, results =>
      connectLinks (s.connectLink link (results.headD .inProgress)) links results.tail

/-- `BeginSetup` after the configuration is read and the listener is bound.  A link
    without a listener is reported, and the loop is left, but not the function. -/
def setupLinks (s : NodeMonitor) (results : List ConnectResult) : NodeMonitor :=
  let links := s.config.fetchLinkNodeList
  let s := if links.any fun link => !link.node.hasListener then s.emit (.setup false) else s
  (s.connectLinks links results).checkIfAllSetup

/-- `BeginSetup`; `parsed` and `bound` are the results of `ParseXml` and `Bind`. -/
def beginSetup (s : NodeMonitor) (parsed bound : Bool) (results : List ConnectResult) :
    NodeMonitor :=
  let s := { s with started := true, state := .inSetup }
  if !parsed then s.emit (.setup false)
  else if s.config.info.hasListener && !bound then s.emit (.setup false)
  else setupLinks { s with listening := s.config.info.hasListener } results

/-! ### The machine -/

inductive Action where
  | beginSetup (parsed bound : Bool) (results : List ConnectResult)
  | beginCleanup (quiet : Bool)
  /-- `OnListenerAccept`. -/
  | accept
  /-- The pending `connect` of a connector is decided. -/
  | connectResult (c : Nat) (ok : Bool)
  /-- Bytes are read from the socket of a connector. -/
  | arrive (c : Nat) (bytes : List UInt8)
  /-- The next frame in the receive queue of a connector is handled. -/
  | handle (c : Nat)
  /-- A socket error, or the end of the stream. -/
  | fail (c : Nat)
  /-- The dispatcher runs `OnEventIOClose` of a closed connector. -/
  | finalise (c : Nat) (quiet : Bool)
  | create (name : Name) (sys : Bool)
  | destroy (mb : Mailbox)
  | cast (msg : Message)
  /-- The executor has stopped its actions. -/
  | quiet

/-- `OnListenerAccept`. -/
def onListenerAccept (s : NodeMonitor) : NodeMonitor :=
  let c := s.next
  let s := ({ s.setConn c (Connector.new false) with next := c + 1 }).onConnect c
  { s with anonymous := s.anonymous ++ [c] }

/-- One event of the dispatcher.  An event that cannot happen leaves the state. -/
def step (s : NodeMonitor) : Action → NodeMonitor
  | .beginSetup parsed bound results =>
      if s.started then s else s.beginSetup parsed bound results
  | .beginCleanup quiet =>
      if s.started then (closeAll { s with state := .inCleanup }).checkIfAllCleanup quiet else s
  | .accept => if s.listening then s.onListenerAccept else s
  | .connectResult c ok =>
      if (s.conns c).pending && !(s.conns c).closed then
        if ok then s.onConnect c
        else
          let s := s.setConn c { s.conns c with pending := false }
          (s.onConnectorAuthFail c).close c
      else s
  | .arrive c bytes =>
      if (s.conns c).connect && !(s.conns c).closed then
        s.setConn c { s.conns c with recvq := (s.conns c).recvq ++ bytes }
      else s
  | .handle c => if (s.conns c).connect then s.handleFrame c else s
  | .fail c => if (s.conns c).connect then s.close c else s
  | .finalise c quiet =>
      if (s.conns c).connect && (s.conns c).closed then
        onConnectorClose (s.setConn c { s.conns c with connect := false }) c quiet
      else s
  | .create name sys =>
      if s.started then ((s.create name sys).map Prod.fst).getD s else s
  | .destroy mb => s.destroy mb
  | .cast msg => s.cast msg
  | .quiet => s.checkIfAllCleanup true

end NodeMonitor

end Jengine.Cluster
