import LeoMem.Api.Handling
import LeoMem.Api.Frame
import LeoMem.Batching.ProgramOrder
import LeoMem.Stub.Bounds
import LeoMem.Api.ReadEffect
import LeoMem.Api.WriteEffect
import LeoMem.Api.Records
import LeoMem.Stub.Control
import LeoMem.Stub.Memory
import LeoMem.Stub.Flat
import LeoMem.Stub.Homes
import LeoMem.Stub.SingleHome
import LeoMem.Stub.Transparency
import LeoMem.Stub.FailedFlush
import LeoMem.Cluster.Model
import LeoMem.Cluster.Memory
import LeoMem.Cluster.Release
import LeoMem.Cluster.Invalidation
import LeoMem.Cluster.Ownership
import LeoMem.Cluster.Versions
import LeoMem.Heap.Layout
import LeoMem.Heap.Tiling
import LeoMem.Cache.Invariant
import LeoMem.Lib.Text
import LeoMem.Rdma.Codec
import LeoMem.Rdma.Mailbox
import LeoMem.Api.Drains
import LeoMem.Api.Instrument
import LeoMem.Cluster.Handlers
import LeoMem.Rdma.Completions
import LeoMem.Rdma.DataPlane
import LeoMem.Stub.Session
import LeoMem.Heap.LocalMemory
import LeoMem.Cluster.Acks
import LeoMem.Threads.Order
import LeoMem.Cache.Recency
import LeoMem.Cache.Ranges
import LeoMem.Heap.Refused
import LeoMem.Api.FailedWrite
import LeoMem.Cluster.Misdirected
import LeoMem.Control.Schedule
import LeoMem.Api.UnsentAcks
import LeoMem.Api.Retries
import LeoMem.Api.Conservation
import LeoMem.Rdma.Exchange
import LeoMem.Rdma.HalfWritten
import LeoMem.Rdma.Outstanding
import LeoMem.Cache.History
import LeoMem.Cache.Promotion
import LeoMem.Cache.Admission
import LeoMem.Api.Validated
import LeoMem.Stub.WriteThrough
import LeoMem.Stub.Fence
import LeoMem.Heap.LocalWrite
import LeoMem.Api.Resolve
import LeoMem.Api.Loops
import LeoMem.Cluster.Settling
import LeoMem.Rdma.Bootstrap
import LeoMem.Rdma.HalfRead
import LeoMem.Rdma.BootProgress
import LeoMem.Api.Simulate
import LeoMem.Rdma.Cluster
import LeoMem.Cluster.Provenance
import LeoMem.Lib.Handles
import LeoMem.Rdma.Regions
import LeoMem.Cluster.OneMemory
import LeoMem.ConfigFile
import LeoMem.Rdma.Shared
