import Jengine.Cluster.Mailboxes

/-!
# Two nodes and a connection

Two monitors that are joined by one connection.  What a node sends over its end
is queued, and the other node handles it in this order.  The connection can be
lost at any time, with any number of messages that were on their way; each node
notices that by itself, and may have handled more of what was sent before it
does.  A connection is established again when both have noticed.

Messages travel as a whole; `handle_arrive` says that this is what their bytes
do in the receive queue of a connector.
-/

namespace Jengine.Cluster

open Jengine.Lib Jengine.Gateway NodeMonitor

/-- The message of an event that goes out over a connector. -/
def sentOver (c : Nat) : Event → Option Message
  | .send c' msg => if c' = c then some msg else none
  | _ => none

/-- What was sent over a connector from one state to a later one. -/
def sentBy (s s' : NodeMonitor) (c : Nat) : List Message :=
  (s'.out.drop s.out.length).filterMap (sentOver c)

/-- A node before it has connected to any other. -/
def booted (cfg : Configure) : NodeMonitor :=
  { init cfg with started := true, listening := cfg.info.hasListener }

/-- The two nodes are numbered by `false` and `true`. -/
structure World where
  node : Bool → NodeMonitor
  /-- The connector that is a node's end of the connection. -/
  conn : Bool → Nat
  /-- Whether a node has an end of the connection. -/
  up : Bool → Bool
  /-- What a node has sent and the other one has not handled. -/
  queue : Bool → List Message
  lost : Bool

namespace World

def start (cfg : Bool → Configure) : World :=
  ⟨fun i => booted (cfg i), fun _ => 0, fun _ => false, fun _ => [], true⟩

/-- A node changes; what it sends is queued, and when it closes its end the connection is lost. -/
def act (w : World) (i : Bool) (s : NodeMonitor) : World :=
  { w with node := Function.update w.node i s
           queue := if w.lost then w.queue
                    else Function.update w.queue i (w.queue i ++ sentBy (w.node i) s (w.conn i))
           lost := w.lost || (s.conns (w.conn i)).closed }

inductive Act where
  /-- Either node may be the one that connects or the one that accepts. -/
  | establish (required : Bool → Bool)
  | create (i : Bool) (name : Name) (sys : Bool)
  | destroy (i : Bool) (mb : Mailbox)
  /-- A mailbox sends a message to a mailbox of the other node. -/
  | cast (i : Bool) (msg : Message)
  /-- A node handles the next message. -/
  | deliver (i : Bool)
  /-- The connection is lost, with all but the first messages on their way. -/
  | lose (rest : Bool → Nat)
  /-- A node notices that the connection is lost. -/
  | notice (i : Bool) (quiet : Bool)

/-- A node with a new connector, over which it has sent its authentication. -/
def joined (s : NodeMonitor) (required : Bool) : NodeMonitor := (s.enter required).onConnect s.next

/-- A node whose end of the connection has failed and is closed for good. -/
def parted (s : NodeMonitor) (c : Nat) (quiet : Bool) : NodeMonitor :=
  (s.step (.fail c)).step (.finalise c quiet)

def establish (w : World) (required : Bool → Bool) : World where
  node := fun i => joined (w.node i) (required i)
  conn := fun i => (w.node i).next
  up := fun _ => true
  queue := fun i => sentBy (w.node i) (joined (w.node i) (required i)) (w.node i).next
  lost := false

/-- The next message for a node is gone. -/
def pop (w : World) (i : Bool) : World :=
  { w with queue := Function.update w.queue (!i) (w.queue (!i)).tail }

def step (w : World) : Act → World
  | .establish required => if w.up true || w.up false then w else w.establish required
  | .create i name sys => w.act i ((((w.node i).create name sys).map Prod.fst).getD (w.node i))
  | .destroy i mb => w.act i ((w.node i).destroy mb)
  | .cast i msg => if msg.wire.receiver.valid then w.act i ((w.node i).cast msg) else w
  | .deliver i =>
      match w.queue (!i) with
      | [] => w
      | msg :: _ =>
          if w.up i then
            if ((w.node i).conns (w.conn i)).closed then w.pop i
            else (w.pop i).act i ((w.node i).handleMessage (w.conn i) msg.wire)
          else w
  | .lose rest => { w with queue := fun i => (w.queue i).take (rest i), lost := true }
  | .notice i quiet =>
      if w.lost && w.up i then
        { w with node := Function.update w.node i (parted (w.node i) (w.conn i) quiet)
                 up := Function.update w.up i false
                 queue := Function.update w.queue (!i) [] }
      else w

end World

/-! ### The connection and the code -/

/-- A pass of the connecting loop that succeeds at once, and an accepted connection, give a node
    a new end. -/
theorem connectLink_joined (s : NodeMonitor) (link : LinkNodeInfo) :
    s.connectLink link .connected = World.joined s link.require := connectLink_eq s link .connected

theorem onListenerAccept_joined (s : NodeMonitor) : s.onListenerAccept = World.joined s false := by
  unfold onListenerAccept World.joined
  simp only [onConnect_eq, sendMessage_eq, sends, enter, setConn]

/-- The frame of a message is found at the front of the receive queue. -/
theorem frontFrame_toFrame {msg : Message}
    (hfits : Message.headSize + msg.payload.length < 2 ^ 32) :
    frontFrame msg.toFrame = some msg.toFrame.length := by
  have hlen : msg.toFrame.length = Message.headSize + msg.payload.length := by
    simp only [Message.toFrame, encodeMailboxID, List.length_append, length_toLE]
    unfold Message.headSize
    omega
  have hsize : ofLE (msg.toFrame.take 4) = Message.headSize + msg.payload.length := by
    have htake : msg.toFrame.take 4 = toLE 4 (u32 (Message.headSize + msg.payload.length)) :=
      List.take_left' (length_toLE 4 _)
    have hmod : u32 (Message.headSize + msg.payload.length) =
        Message.headSize + msg.payload.length := Nat.mod_eq_of_lt hfits
    rw [htake, hmod, ofLE_toLE_of_lt hfits]
  simp only [frontFrame, hsize, hlen]
  rw [if_pos (by unfold Message.headSize; omega)]

/-- The bytes of a message are handled as the message. -/
theorem handle_arrive {s : NodeMonitor} {c : Nat} {msg : Message}
    (hconnect : (s.conns c).connect = true) (hclosed : (s.conns c).closed = false)
    (hempty : (s.conns c).recvq = []) (hfits : Message.headSize + msg.payload.length < 2 ^ 32) :
    (s.step (.arrive c msg.toFrame)).step (.handle c) = s.handleMessage c msg.wire := by
  have harrive : s.step (.arrive c msg.toFrame) = s.receive c msg.toFrame := by
    have hopen : ((s.conns c).connect && !(s.conns c).closed) = true := by
      rw [hconnect, hclosed]
      rfl
    simp only [step, if_pos hopen, hempty, List.nil_append]
    rfl
  have hback : (s.receive c msg.toFrame).setConn c { s.conns c with recvq := [] } = s := by
    have hself : { s.conns c with recvq := [] } = s.conns c := by rw [← hempty]
    rw [hself]
    simp only [receive, setConn, Function.update_idem, Function.update_eq_self]
  have hconn : (s.receive c msg.toFrame).conns c = { s.conns c with recvq := msg.toFrame } :=
    setConn_self s c _
  rw [harrive]
  simp only [step]
  rw [if_pos (by rw [hconn]; exact hconnect)]
  simp only [handleFrame, hconn, frontFrame_toFrame hfits, List.take_length, List.drop_length,
    Message.ofFrame_toFrame]
  rw [hback]

end Jengine.Cluster
