import Gokit.Math.Store
import Gokit.Ds.SkipList.Defs
import Gokit.Ds.SkipList.Heap
import Gokit.Ds.SkipList.Layout
import Gokit.Ds.SkipList.Rep
import Gokit.Ds.SkipList.Insert
import Gokit.Ds.SkipList.Remove
import Gokit.Ds.SkipList.Update
import Gokit.Ds.SkipList.Model
import Gokit.Ds.SkipList.Refinement
import Gokit.Ds.SkipList.Invariant
import Gokit.Clock.Defs
import Gokit.Ds.SkipList.RankTree
import Gokit.Clock.Wheel
import Gokit.Clock.Steps
import Gokit.Clock.Pending
import Gokit.Clock.Refinement
import Gokit.Clock.Schedule
import Gokit.Clock.Run
import Gokit.Math.Bytes
import Gokit.Math.Incremental
import Gokit.Wsg.Defs
import Gokit.Wsg.Codec
import Gokit.Wsg.Reassembly
import Gokit.Math.Transition
import Gokit.Rpc.Defs
import Gokit.Rpc.Timeouts
import Gokit.Rpc.Tracking
import Gokit.Rpc.Delivery
import Gokit.Ds.StaticList.Defs
import Gokit.Ds.StaticList.Pool
import Gokit.Ds.StaticList.Queue
import Gokit.Wsg.Handshake
import Gokit.Wsg.Timeout
import Gokit.Rpc.Message
import Gokit.Rpc.Response
import Gokit.Discovery.Defs
import Gokit.Discovery.Mirror
import Gokit.Discovery.Unregister
import Gokit.Rpc.Registration
import Gokit.Rpc.Connections
import Gokit.Delta.Ledger
import Gokit.Delta.Collector
import Gokit.Rpc.Writer
import Gokit.Rpc.Shutdown
import Gokit.Math.Framing
import Gokit.Rpc.Close
import Gokit.Rpc.Framing
import Gokit.Rpc.Wakeup
import Gokit.Rpc.Server
import Gokit.Clock.Shutdown
import Gokit.Ds.SkipList.Ranges
import Gokit.Delta.Topmost
import Gokit.Delta.Updates
import Gokit.Ds.SkipList.Replace
import Gokit.Clock.Termination
import Gokit.Lock.RedLock
import Gokit.Framework.Agent
import Gokit.Framework.Balance
import Gokit.Framework.Answers
import Gokit.Kcp.Server
import Gokit.Kcp.Sessions
import Gokit.Wsg.Header
import Gokit.Wsg.Decoders
import Gokit.Wsg.Replies
import Gokit.Wsg.Limit
import Gokit.Math.Periodic
import Gokit.Util.Time
import Gokit.Discovery.Lookup
import Gokit.Discovery.Register
import Gokit.Rpc.SyncCalls
import Gokit.Ds.StaticList.Allocation
import Gokit.Framework.Results
import Gokit.Kcp.Protocol
import Gokit.Kcp.Reading
import Gokit.Kcp.Sending
import Gokit.Kcp.Transfer
import Gokit.Kcp.Assembly
import Gokit.Kcp.Link
import Gokit.Kcp.Recovery
import Gokit.Kcp.Projection
import Gokit.Mlog.Logger
