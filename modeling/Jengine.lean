import Jengine.Action.ActionBase
import Jengine.Action.ActionManager
import Jengine.Action.Lifetimes
import Jengine.Action.LocalOrder
import Jengine.Action.Schedule
import Jengine.Action.Scheduler
import Jengine.Action.Stopping
import Jengine.Base.Event
import Jengine.Base.Object
import Jengine.Base.Released
import Jengine.Base.Timer
import Jengine.Cluster.AsyncFetch
import Jengine.Cluster.Authentication
import Jengine.Cluster.Configure
import Jengine.Cluster.ConnectorReceive
import Jengine.Cluster.Copies
import Jengine.Cluster.FetchRuns
import Jengine.Cluster.Handlers
import Jengine.Cluster.LateFrames
import Jengine.Cluster.Link
import Jengine.Cluster.MailboxID
import Jengine.Cluster.Mailboxes
import Jengine.Cluster.Membership
import Jengine.Cluster.Message
import Jengine.Cluster.MessageOut
import Jengine.Cluster.NameIndices
import Jengine.Cluster.NodeMonitor
import Jengine.Cluster.Peers
import Jengine.Cluster.ProcessIDs
import Jengine.Cluster.ProcessName
import Jengine.Cluster.Replication
import Jengine.Cluster.RpcService
import Jengine.Cluster.RpcStub
import Jengine.Cluster.Setup
import Jengine.Cluster.SharedHead
import Jengine.Cluster.ValueIDs
import Jengine.Cluster.World
import Jengine.Dbo.AppendData
import Jengine.Dbo.Callbacks
import Jengine.Dbo.Configure
import Jengine.Dbo.ExecutePacket
import Jengine.Dbo.Handshake
import Jengine.Dbo.LateReply
import Jengine.Dbo.Ownership
import Jengine.Dbo.Packet
import Jengine.Dbo.PacketBounds
import Jengine.Dbo.PacketReader
import Jengine.Dbo.PacketWriter
import Jengine.Dbo.PoolHanded
import Jengine.Dbo.PoolLists
import Jengine.Dbo.PoolMoves
import Jengine.Dbo.PoolRight
import Jengine.Dbo.PreparedStatement
import Jengine.Dbo.RealConnection
import Jengine.Dbo.RealConnectionPool
import Jengine.Dbo.Reply
import Jengine.Dbo.Response
import Jengine.Dbo.ResponseParse
import Jengine.Dbo.ResponseSteps
import Jengine.Dbo.ResultSet
import Jengine.Dbo.RowAgreement
import Jengine.Dbo.RowBinary
import Jengine.Dbo.RowEncoding
import Jengine.Dbo.RowFields
import Jengine.Dbo.RowReader
import Jengine.Dbo.RowText
import Jengine.Dbo.SharedPool
import Jengine.Dbo.Statement
import Jengine.Dbo.StatementIds
import Jengine.Dbo.VariableInteger
import Jengine.Event.Dispatcher
import Jengine.Event.Finalisation
import Jengine.Event.Timeouts
import Jengine.Gateway.Cleanup
import Jengine.Gateway.FlatPacket
import Jengine.Gateway.GateServer
import Jengine.Gateway.Holders
import Jengine.Gateway.Overwrite
import Jengine.Gateway.Packet
import Jengine.Gateway.PacketBase
import Jengine.Gateway.PacketLength
import Jengine.Gateway.PacketLoop
import Jengine.Gateway.PacketRead
import Jengine.Gateway.PacketWrite
import Jengine.Gateway.RoundTrip
import Jengine.Gateway.UserClient
import Jengine.Gateway.WriteString
import Jengine.Http.HttpClient
import Jengine.Http.HttpRequest
import Jengine.Lib.Channel
import Jengine.Lib.Decimal
import Jengine.Lib.Framing
import Jengine.Lib.Guarded
import Jengine.Lib.IntrusiveList
import Jengine.Lib.Iterators
import Jengine.Lib.Lines
import Jengine.Lib.LittleEndian
import Jengine.Lib.Matching
import Jengine.Lib.Multimap
import Jengine.Lib.Ownership
import Jengine.Lib.Regroup
import Jengine.Lib.Replay
import Jengine.Lib.Ring
import Jengine.Lib.Runs
import Jengine.Lib.Segments
import Jengine.Lib.Serving
import Jengine.Lib.Tables
import Jengine.Lib.Utf8
import Jengine.LogicServer.Caches
import Jengine.LogicServer.ExtractFriends
import Jengine.LogicServer.LocalWorld
import Jengine.LogicServer.PlayerSession
import Jengine.LogicServer.WorldChat
import Jengine.Lua.LuaCluster
import Jengine.Lua.LuaRpc
import Jengine.Lua.Reading
import Jengine.Lua.RoundTrip
import Jengine.Lua.Value
import Jengine.Lua.Writing
import Jengine.Memory.MemoryChunk
import Jengine.Memory.MemoryPool
import Jengine.Memory.ViewCounts
import Jengine.Net.Client
import Jengine.Net.ClientClosed
import Jengine.Net.ClientIO
import Jengine.Net.ClientSend
import Jengine.Net.ClientViews
import Jengine.Net.Passes
import Jengine.Net.PopReceive
import Jengine.Net.Socket
import Jengine.Robot.CircularBuffer
import Jengine.Robot.Client
import Jengine.Robot.ClientSend
import Jengine.Robot.WorldPacket
import Jengine.Runner.Lifecycle
import Jengine.Runner.References
import Jengine.Runner.RunnerMgr
import Jengine.Runner.Update
import Jengine.Thread.ThreadPool
import Jengine.Utils.Crypto
import Jengine.Utils.IntrusiveList
import Jengine.Utils.SplitString
import Jengine.Utils.String
import Jengine.Utils.Time
