import Jengine.Cluster.MailboxID

/-!
# The configuration of a cluster

`NodeInfo`, `LocalNodeInfo` and `Configure` (`base/cluster/configure.h`,
`configure.cpp`).  Reading the two XML files is left to the XML library; what
`ParseXml` leaves behind is a value of `Configure`, with the local node found
among the nodes, or a failure.
-/

namespace Jengine.Cluster

/-- `NodeInfo::LinkInfo::LinkType`. -/
inductive LinkType where
  | byName
  | byType
deriving DecidableEq, Repr

/-- `NodeInfo::LinkInfo`. -/
structure LinkInfo where
  type : LinkType
  matcher : Name
  require : Bool
deriving DecidableEq, Repr

/-- `NodeInfo::Listener`. -/
structure ListenerInfo where
  ip : Name
  port : Int
deriving DecidableEq, Repr

structure NodeInfo where
  id : UInt8
  name : Name
  type : Name
  listener : ListenerInfo
  links : List LinkInfo
deriving DecidableEq, Repr

/-- `HasListener`. -/
def NodeInfo.hasListener (n : NodeInfo) : Bool := !n.listener.ip.isEmpty && n.listener.port != -1

/-- `LinkNodeInfo`. -/
structure LinkNodeInfo where
  node : NodeInfo
  require : Bool
deriving DecidableEq, Repr

/-- `Configure` after a successful `ParseXml`, with its `LocalNodeInfo`. -/
structure Configure where
  /-- `local_node_.info`. -/
  info : NodeInfo
  /-- `local_node_.cookies`. -/
  cookies : List Name
  nodes : List NodeInfo
deriving DecidableEq, Repr

namespace Configure

/-- `IsCookieAllow`. -/
def isCookieAllow (cfg : Configure) (cookie : Name) : Bool := cfg.cookies.any (cookie == ·)

/-- `FindNodeInfoByID`. -/
def findNodeInfoByID (cfg : Configure) (id : UInt8) : Option NodeInfo :=
  cfg.nodes.find? fun n => n.id == id

theorem findNodeInfoByID_id {cfg : Configure} {id : UInt8} {n : NodeInfo}
    (h : cfg.findNodeInfoByID id = some n) : n.id = id := by
  simpa using List.find?_some h

/-- Whether a link of the local node matches a node. -/
def linkMatches (link : LinkInfo) (n : NodeInfo) : Bool :=
  match link.type with
  | .byName => n.name == link.matcher
  | .byType => n.type == link.matcher

/-- `FetchLinkNodeList`: every other node that a link matches, with the requirement of
    the first such link. -/
def fetchLinkNodeList (cfg : Configure) : List LinkNodeInfo :=
  cfg.nodes.filterMap fun n =>
    if n.name = cfg.info.name then none
    else (cfg.info.links.find? fun link => linkMatches link n).map fun link => ⟨n, link.require⟩

end Configure

end Jengine.Cluster
