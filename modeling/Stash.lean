import Stash.Sync.FileLocks
import Stash.Sync.FileLockAccounting
import Stash.Sync.FileLockExclusion
import Stash.Sessions.SessionManager
import Stash.Sessions.SessionRefinement
import Stash.Foundation.Scanf
import Stash.Threads.ClientThread
import Stash.Threads.Requests
import Stash.Threads.UploadFraming
import Stash.Threads.Segmentation
import Stash.Client.Download
import Stash.Foundation.FileTree
import Stash.Auth.Database
import Stash.Threads.WorkerThread
import Stash.Threads.Naming
import Stash.Auth.FileRows
import Stash.Threads.DiskAgreement
import Stash.Foundation.FileViews
import Stash.Threads.Isolation
import Stash.Foundation.Groves
import Stash.Threads.IsolationExact
import Stash.Threads.SameFile
import Stash.Threads.Serializability
import Stash.Threads.WorkerEffect
import Stash.Foundation.Fifos
import Stash.Queue.BoundedQueues
import Stash.Foundation.Tallies
import Stash.Queue.Wakeups
import Stash.Auth.Accounts
import Stash.Auth.MetadataMap
import Stash.Threads.QuotaBound
import Stash.Threads.AuthCommands
import Stash.Threads.Authentication
import Stash.Client.Authenticate
import Stash.Client.AuthDialog
import Stash.Threads.Credentials
import Stash.Threads.Grammar
import Stash.Delivery.SessionObjects
import Stash.Delivery.ClientsAndWorkers
import Stash.Delivery.Responses
import Stash.Delivery.Lifetimes
import Stash.Delivery.SessionIds
import Stash.Delivery.ResponseData
import Stash.Delivery.ServerProcess
import Stash.Delivery.ClosedOnce
import Stash.Foundation.Custody
import Stash.Foundation.Descriptors
import Stash.Foundation.FairRuns
import Stash.Delivery.Progress
import Stash.Foundation.Traces
import Stash.Threads.FileStore
import Stash.Threads.ConcurrentStore
import Stash.Threads.LockedStore
import Stash.Auth.Charges
import Stash.Threads.QuotaStore
import Stash.Client.Connection
import Stash.Auth.Transactions
import Stash.Auth.Signups
import Stash.Threads.UploadAnswers
import Stash.Threads.WorkerEvents
import Stash.Threads.QuotaGate
import Stash.Threads.Listing
import Stash.Foundation.LockOrder
import Stash.Threads.MutexHierarchy
import Stash.Client.Handlers
import Stash.Foundation.Transfers
import Stash.Utils.FullTransfers
import Stash.Client.Upload
import Stash.Sessions.SessionStatistics
import Stash.Threads.LockTable
import Stash.Threads.ShutdownHandler
import Stash.Foundation.Decimals
import Stash.Delivery.Attention
import Stash.Delivery.GracefulShutdown
import Stash.Client.Terminal
import Stash.Client.Desk
