import ItcPlatform.AdminMessage
import ItcPlatform.Api.Directory
import ItcPlatform.Api.FailedInitialise
import ItcPlatform.Api.Forwarding
import ItcPlatform.Api.GiveUp
import ItcPlatform.Api.Lengths
import ItcPlatform.Api.LifeCycle
import ItcPlatform.Api.Locate
import ItcPlatform.Api.MailboxFormat
import ItcPlatform.Api.Notification
import ItcPlatform.Api.Platform
import ItcPlatform.Api.Pointers
import ItcPlatform.Api.Registration
import ItcPlatform.Api.Requests
import ItcPlatform.Api.StaleHeap
import ItcPlatform.Api.Threads
import ItcPlatform.ConcurrentContainer.Exhaustion
import ItcPlatform.ConcurrentContainer.Machine
import ItcPlatform.ConcurrentContainer.NameTable
import ItcPlatform.ConcurrentContainer.Ownership
import ItcPlatform.Constant
import ItcPlatform.CrossRegion.EndToEnd
import ItcPlatform.CrossRegion.ExactlyOnce
import ItcPlatform.FileSystem.CreatePath
import ItcPlatform.LSocketTransport.Connection
import ItcPlatform.LSocketTransport.Descriptors
import ItcPlatform.LSocketTransport.PartialReads
import ItcPlatform.Lib.Copies
import ItcPlatform.Lib.Custody
import ItcPlatform.Lib.Directory
import ItcPlatform.Lib.FileTree
import ItcPlatform.Lib.History
import ItcPlatform.Lib.Interleaving
import ItcPlatform.Lib.LittleEndian
import ItcPlatform.Lib.LossyChannel
import ItcPlatform.Lib.MessageQueues
import ItcPlatform.Lib.Once
import ItcPlatform.Lib.SlotTable
import ItcPlatform.Lib.Sweep
import ItcPlatform.Lib.SwitchedFifo
import ItcPlatform.Lib.TicketLine
import ItcPlatform.Lib.TicketRing
import ItcPlatform.Lib.Window
import ItcPlatform.LockFreeQueue.Completion
import ItcPlatform.LockFreeQueue.Conservation
import ItcPlatform.LockFreeQueue.Fifo
import ItcPlatform.LockFreeQueue.Index
import ItcPlatform.LockFreeQueue.Machine
import ItcPlatform.LockFreeQueue.Measuring
import ItcPlatform.LockFreeQueue.Progress
import ItcPlatform.LockFreeQueue.Retries
import ItcPlatform.LockFreeQueue.Sequential
import ItcPlatform.LockFreeQueue.Slots
import ItcPlatform.LockFreeQueue.Spsc
import ItcPlatform.LockFreeQueue.Stream
import ItcPlatform.LockFreeQueue.TryOperations
import ItcPlatform.Mailbox.Accounting
import ItcPlatform.Mailbox.Deactivation
import ItcPlatform.Mailbox.Identity
import ItcPlatform.Mailbox.Invariant
import ItcPlatform.Mailbox.Machine
import ItcPlatform.Mailbox.Move
import ItcPlatform.Mailbox.Order
import ItcPlatform.Mailbox.Sequential
import ItcPlatform.MemoryManager.Allocator
import ItcPlatform.MemoryManager.Balance
import ItcPlatform.MemoryManager.Pool
import ItcPlatform.Singletons
import ItcPlatform.SyncObjects.Deadline
import ItcPlatform.SyncObjects.Elements
import ItcPlatform.SysvTransport.Channel
import ItcPlatform.SysvTransport.Delivery
import ItcPlatform.SysvTransport.Frame
import ItcPlatform.SysvTransport.Machine
import ItcPlatform.SysvTransport.Restart
import ItcPlatform.SysvTransport.Retry
import ItcPlatform.SysvTransport.Routing
import ItcPlatform.SysvTransport.RxBuffer
import ItcPlatform.SysvTransport.Send
import ItcPlatform.ThreadManager.Attributes
import ItcPlatform.ThreadManager.Handshake
import ItcPlatform.ThreadManager.Locking
import ItcPlatform.ThreadManager.Manager
import ItcPlatform.ThreadManager.Ownership
import ItcPlatform.ThreadManager.Relocation
import ItcPlatform.ThreadManager.Threads
import ItcPlatform.ThreadPool.Calls
import ItcPlatform.ThreadPool.Machine
import ItcPlatform.ThreadPool.Overtaking
import ItcPlatform.ThreadPool.Tasks
import ItcPlatform.ThreadPool.WakeUp
import ItcPlatform.TransportLocal.Addressing
import ItcPlatform.TransportLocal.Region
import ItcPlatform.TransportLocal.Senders
import ItcPlatform.TransportLocal.Send
