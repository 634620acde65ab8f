import Arts.Db.Creation
import Arts.Db.FirstAccess
import Arts.Db.OneWriter
import Arts.Db.Range
import Arts.Db.Readers
import Arts.Db.Release
import Arts.Db.Rename
import Arts.Db.Resize
import Arts.Db.SliceQueue
import Arts.Db.Waiting
import Arts.Deque.Wraparound
import Arts.Edt.Fused
import Arts.Edt.Queued
import Arts.Edt.Ready
import Arts.Epoch.Arrival
import Arts.Epoch.Enrolment
import Arts.Epoch.Pools
import Arts.Epoch.Quiet
import Arts.Epoch.SingleNode
import Arts.Epoch.Wakeup
import Arts.Event.ChannelFifo
import Arts.Event.Control
import Arts.Event.Datum
import Arts.Event.Delivery
import Arts.Event.Metadata
import Arts.Event.Slice
import Arts.Graph.Csr
import Arts.Guid.Lookup
import Arts.Guid.Range
import Arts.Inbound.Delivery
import Arts.Outbound.Failure
import Arts.RouteTable.Balance
import Arts.RouteTable.Deletion
import Arts.RouteTable.Insertion.Intact
import Arts.RouteTable.Receive
import Arts.RouteTable.Reclaim
import Arts.Scheduler.Network
import Arts.Scheduler.Sleep
