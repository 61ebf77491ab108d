import Innernet.Library.Fallible
import Innernet.Library.Runs
import Innernet.Library.Tables
import Innernet.Engine
import Innernet.Decision
import Innernet.Server.Operations
import Innernet.Server.Record
import Innernet.Server.Ledger
import Innernet.Server.Transactions
import Innernet.Server.Requests
import Innernet.Server.Laws
import Innernet.Server.History
import Innernet.Arithmetic
import Innernet.Server.Guarantees
import Innernet.Registration
import Innernet.Endpoint
import Innernet.Retention
import Innernet.Custody
import Innernet.Agreement
import Innernet.Retirement
import Innernet.Replay
import Innernet.Server.Receipts
import Innernet.Progress
import Innernet.Server.Revocation
import Innernet.Activation
import Innernet.Gating
import Innernet.Keying
import Innernet.Server.Quotas
import Innernet.Repair
import Innernet.Server.Keys
import Innernet.Server.Cidrs
import Innernet.Server.Startup
import Innernet.Server.Artifacts
import Innernet.Server.Serving
import Innernet.Binding
import Innernet.Validity
import Innernet.Establishment
import Innernet.Preservation
import Innernet.Faults
import Innernet.Server.Retries
import Innernet.Library.Durability
import Innernet.Storage
import Innernet.Atomicity
import Innernet.Convergence
import Innernet.Pinning
import Innernet.Library.Documents
import Innernet.Serialization
import Innernet.Server.Fitting
import Innernet.Library.Panics
import Innernet.PublicIp
import Innernet.Server.Invites
import Innernet.Batching
import Innernet.Netlink
import Innernet.Gate
import Innernet.Traversal
import Innernet.Server.Assignment
import Innernet.Pair
import Innernet.Delivery
import Innernet.Library.Paging
import Innernet.Server.Pages
import Innernet.Fetch
