import Wsmq.Lib.ByteString
import Wsmq.Lib.Packing
import Wsmq.Lib.RingMemory
import Wsmq.Lib.BoundedFifo
import Wsmq.Lib.PriorityQueue
import Wsmq.Lib.RoundRobin
import Wsmq.Lib.Runs
import Wsmq.Lib.Brokers
import Wsmq.ComDef
import Wsmq.ShmQueue
import Wsmq.ShmQueueFifo
import Wsmq.FuncTool
import Wsmq.Message
import Wsmq.MessageQueue
import Wsmq.MessageQueue.Turns
import Wsmq.MessageQueue.Order
import Wsmq.Exchange
import Wsmq.LogicServer.State
import Wsmq.LogicServer.Handlers
import Wsmq.LogicServer.Run
import Wsmq.LogicServer.Refinement
import Wsmq.LogicServer.StepRefinement
import Wsmq.LogicServer.Registry
import Wsmq.LogicServer.Conservation
import Wsmq.LogicServer.Frame
import Wsmq.LogicServer.Dedup
import Wsmq.ConnectServer
import Wsmq.LogicServer.PublishAck
import Wsmq.LogicServer.DurableAck
import Wsmq.DurableFiles
import Wsmq.Lib.Files
import Wsmq.PersistenceServer.Handlers
import Wsmq.Lib.Decimal
import Wsmq.PersistenceServer.GroupNames
import Wsmq.Lib.SegmentedLog
import Wsmq.Lib.Framing
import Wsmq.ConnectServer.Receive
import Wsmq.ConnectServer.DrainLoop
import Wsmq.LogicServer.Request
import Wsmq.LogicServer.RoundTrip
import Wsmq.LogicServer.OwnBytes
import Wsmq.Lib.Directories
import Wsmq.Lib.Folders
import Wsmq.PersistenceServer.Packets
import Wsmq.PersistenceServer.Isolation
import Wsmq.PersistenceServer.Folders
import Wsmq.PersistenceServer.Metadata
import Wsmq.PersistenceServer.DurableRuns
import Wsmq.LogicServer.Recovery
import Wsmq.LogicServer.Init
import Wsmq.LogicServer.Orders
import Wsmq.PersistenceServer.Merge
import Wsmq.PersistenceServer.ClearUp
import Wsmq.PersistenceServer.Deletion
import Wsmq.PersistenceServer.QueueMaps
import Wsmq.Lib.CircularWait
import Wsmq.Processes
import Wsmq.Processes.CircularWait
import Wsmq.Processes.Addressing
import Wsmq.Processes.Delivery
import Wsmq.Lib.Wildcards
import Wsmq.Topic
import Wsmq.Bindings
import Wsmq.LogicServer.FanOut
import Wsmq.LogicServer.ClientAck
import Wsmq.LogicServer.MultiAck
import Wsmq.LogicServer.ClientExit
import Wsmq.Lib.AssocTables
import Wsmq.LogicServer.Rollback
import Wsmq.Client
import Wsmq.Client.CancelSubscribe
import Wsmq.LogicServer.Effects
import Wsmq.LogicServer.StepEffects
import Wsmq.LogicServer.Deeds
import Wsmq.LogicServer.StepDeeds
import Wsmq.Lib.Holdings
import Wsmq.LogicServer.Integrity
import Wsmq.ConnectServer.Batching
import Wsmq.Client.Receive
import Wsmq.Client.Payload
import Wsmq.LogicServer.Outgoing
import Wsmq.LogicServer.SentMessages
import Wsmq.Client.Calls
import Wsmq.Client.Repeats
import Wsmq.LogicServer.PushRound
import Wsmq.ConnectServer.Pool
import Wsmq.ConnectServer.Accounting
import Wsmq.Encoders
import Wsmq.Client.Window
import Wsmq.Client.Repacking
import Wsmq.Client.Producer
import Wsmq.Client.Safety
import Wsmq.Lib.MarkerScan
import Wsmq.ShmQueue.Resync
import Wsmq.LogicServer.Storing
import Wsmq.LogicServer.Subscriptions
import Wsmq.LogicServer.Rebinding
import Wsmq.Lib.Loading
import Wsmq.Lib.Search
import Wsmq.IniFile
import Wsmq.IniFile.Lookup
import Wsmq.Lib.Accesses
import Wsmq.Lib.SpinLock
import Wsmq.ShmQueue.Accesses
import Wsmq.ShmQueue.Locking
import Wsmq.Lib.Outbox
import Wsmq.LogicServer.Removals
import Wsmq.LogicServer.Mirror
import Wsmq.LogicServer.Reload
import Wsmq.Servers
import Wsmq.Client.Confirms
import Wsmq.Processes.Answers
import Wsmq.Processes.Dialogue
import Wsmq.Client.Consuming
import Wsmq.Processes.Handing
import Wsmq.Processes.Consumption
