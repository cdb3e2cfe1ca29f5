import CrossOver.Binding.Entries
import CrossOver.Binding.EntryPoint
import CrossOver.Binding.MongoCalls
import CrossOver.Binding.MongoRequests
import CrossOver.Binding.MysqlParameters
import CrossOver.Engine.Drain
import CrossOver.Engine.Event
import CrossOver.Engine.HttpAccessor
import CrossOver.Engine.Ikcp.Clock
import CrossOver.Engine.Ikcp.Contents
import CrossOver.Engine.Ikcp.Delivery
import CrossOver.Engine.Ikcp.Emptying
import CrossOver.Engine.Ikcp.Messages
import CrossOver.Engine.Ikcp.Origin
import CrossOver.Engine.Ikcp.Protocol
import CrossOver.Engine.Ikcp.Receiver
import CrossOver.Engine.Ikcp.Sender
import CrossOver.Engine.Ikcp.Window
import CrossOver.Engine.Ikcp.Wire
import CrossOver.Engine.Log
import CrossOver.Engine.Log.Lines
import CrossOver.Engine.Log.Stopping
import CrossOver.Engine.LuaFix
import CrossOver.Engine.LuaFix.Fresh
import CrossOver.Engine.Mongo.Database
import CrossOver.Engine.Mongo.Outcomes
import CrossOver.Engine.Mysql.Answers
import CrossOver.Engine.Mysql.Capacity
import CrossOver.Engine.Mysql.Connection
import CrossOver.Engine.Mysql.Database
import CrossOver.Engine.Mysql.Execution
import CrossOver.Engine.Mysql.Insertion
import CrossOver.Engine.Mysql.Nulls
import CrossOver.Engine.Mysql.Pool
import CrossOver.Engine.Mysql.ResultSet
import CrossOver.Engine.Mysql.Results
import CrossOver.Engine.Mysql.Serial
import CrossOver.Engine.Mysql.Statement
import CrossOver.Engine.Mysql.Transaction
import CrossOver.Engine.Network.Accounting
import CrossOver.Engine.Network.Bursts
import CrossOver.Engine.Network.Calls
import CrossOver.Engine.Network.Connecting
import CrossOver.Engine.Network.Datagrams
import CrossOver.Engine.Network.Deadline
import CrossOver.Engine.Network.Disconnecting
import CrossOver.Engine.Network.Draining
import CrossOver.Engine.Network.EventLoop
import CrossOver.Engine.Network.Exchange
import CrossOver.Engine.Network.Flow
import CrossOver.Engine.Network.Handlers
import CrossOver.Engine.Network.Handshake
import CrossOver.Engine.Network.Iocp.Calls
import CrossOver.Engine.Network.Iocp.Completions
import CrossOver.Engine.Network.Iocp.Ledger
import CrossOver.Engine.Network.Iocp.Manager
import CrossOver.Engine.Network.Iocp.Operations
import CrossOver.Engine.Network.Iocp.Runs
import CrossOver.Engine.Network.Keeping
import CrossOver.Engine.Network.Life
import CrossOver.Engine.Network.Listening
import CrossOver.Engine.Network.Manager
import CrossOver.Engine.Network.Numbers
import CrossOver.Engine.Network.Ownership
import CrossOver.Engine.Network.Primitives
import CrossOver.Engine.Network.Reading
import CrossOver.Engine.Network.Runs
import CrossOver.Engine.Network.Scripts
import CrossOver.Engine.Network.Separation
import CrossOver.Engine.Network.Serving
import CrossOver.Engine.Network.Standing
import CrossOver.Engine.Network.State
import CrossOver.Engine.Network.Traces
import CrossOver.Engine.Network.Views
import CrossOver.Engine.Network.Watching
import CrossOver.Engine.Scheduler
import CrossOver.Engine.SequenceBuffer
import CrossOver.Engine.SerializeStream
import CrossOver.Engine.SerializeStream.Inside
import CrossOver.Engine.SerializeStream.RoundTrip
import CrossOver.Engine.Shutdown
import CrossOver.Engine.WorkThread.Frame
import CrossOver.Engine.WorkThread.Indices
import CrossOver.Engine.WorkThread.Pace
import CrossOver.Engine.WorkThread.Passing
import CrossOver.Engine.WorkThread.Punctual
import CrossOver.Engine.WorkThread.Timers
import CrossOver.Lib.Addresses
import CrossOver.Lib.Behaves
import CrossOver.Lib.Bytes
import CrossOver.Lib.Consuming
import CrossOver.Lib.Cycle
import CrossOver.Lib.Deterministic
import CrossOver.Lib.Framing
import CrossOver.Lib.Fuel
import CrossOver.Lib.Hoare
import CrossOver.Lib.Memory
import CrossOver.Lib.Reachability
import CrossOver.Lib.Result
import CrossOver.Lib.Scatter
import CrossOver.Lib.Selection
import CrossOver.Lib.Streams
import CrossOver.Lib.Tiling
import CrossOver.Lib.Transition
import CrossOver.Lib.Traversal
import CrossOver.Lib.Varint
import CrossOver.Lua.Bson.Bounds
import CrossOver.Lua.Bson.Buffer
import CrossOver.Lua.Bson.Capacity
import CrossOver.Lua.Bson.Decode
import CrossOver.Lua.Bson.Encode
import CrossOver.Lua.Bson.Fields
import CrossOver.Lua.Bson.Format
import CrossOver.Lua.Bson.Index
import CrossOver.Lua.Bson.Keys
import CrossOver.Lua.Bson.Packing
import CrossOver.Lua.Bson.Replace
import CrossOver.Lua.Bson.RoundTrip
import CrossOver.Lua.Bson.Safety
import CrossOver.Lua.Bson.Settling
import CrossOver.Lua.Bson.Slots
import CrossOver.Lua.Bson.Unpacking
import CrossOver.Lua.Bson.Updating
import CrossOver.Lua.Clone
import CrossOver.Lua.Clone.Isomorphism
import CrossOver.Lua.Common
import CrossOver.Lua.Decoding
import CrossOver.Lua.Hostile
import CrossOver.Lua.Hotfix
import CrossOver.Lua.Nesting
import CrossOver.Lua.OpenTables
import CrossOver.Lua.Pb.Canonical
import CrossOver.Lua.Pb.Commands
import CrossOver.Lua.Pb.Decode
import CrossOver.Lua.Pb.Encode
import CrossOver.Lua.Pb.Fields
import CrossOver.Lua.Pb.Hostile
import CrossOver.Lua.Pb.Integers
import CrossOver.Lua.Pb.Meaning
import CrossOver.Lua.Pb.Messages
import CrossOver.Lua.Pb.RoundTrip
import CrossOver.Lua.Pb.Scalars
import CrossOver.Lua.Pb.Schema
import CrossOver.Lua.Pb.Table
import CrossOver.Lua.Pb.Table.Chains
import CrossOver.Lua.Pb.Table.Growth
import CrossOver.Lua.Pb.Table.Places
import CrossOver.Lua.Pb.Table.Runs
import CrossOver.Lua.Pb.Table.Walk
import CrossOver.Lua.Pb.Turns
import CrossOver.Lua.Pb.Varint
import CrossOver.Lua.Pb.Wire
import CrossOver.Lua.RoundTrip
import CrossOver.Lua.Seri
import CrossOver.Lua.Tables
import CrossOver.Lua.Tracing
import CrossOver.Lua.Value
import CrossOver.Lua.WriteBlock
import CrossOver.Lua.Written
