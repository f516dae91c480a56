import Huaweip2p.Lib.RbTree
import Huaweip2p.Lib.UnequalKeys
import Huaweip2p.Lib.SlotTable
import Huaweip2p.Lib.WorkQueues
import Huaweip2p.Server.UserCatalogue
import Huaweip2p.Server.Registration
import Huaweip2p.Server.P2PServer
import Huaweip2p.Server.HalfClose
import Huaweip2p.Client.P2PClient
import Huaweip2p.Client.Connections
import Huaweip2p.Protocol.Reads
import Huaweip2p.Protocol.Requests
import Huaweip2p.Protocol.Reply
import Huaweip2p.Base.Delivery
import Huaweip2p.Base.TimerQueue
import Huaweip2p.Base.Mirroring
import Huaweip2p.Base.Teardown
import Huaweip2p.Base.ServerConnections
import Huaweip2p.Base.Reconnect
import Huaweip2p.Network.Runs
import Huaweip2p.Base.EventLoopThread
import Huaweip2p.Base.TimerSets
import Huaweip2p.Client.Failover
import Huaweip2p.Server.Replacement
import Huaweip2p.Base.ByteQueue
import Huaweip2p.Network.Probes
import Huaweip2p.Base.ConnectionNames
import Huaweip2p.Network.Served
import Huaweip2p.Network.Progress
import Huaweip2p.Network.WireRuns
import Huaweip2p.Base.LoopPasses
import Huaweip2p.Base.ServerLoops
import Huaweip2p.Base.Acceptor
import Huaweip2p.Base.Retries
import Huaweip2p.Base.Dispatch
import Huaweip2p.Base.StartLoop
import Huaweip2p.Client.Proceeds
