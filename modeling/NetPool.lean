import NetPool.Asset.Identity
import NetPool.Main
import NetPool.Settings.Json
import NetPool.Proofs.Net.Notation
import NetPool.Proofs.Time.Notation
import NetPool.Proofs.Json.Reader
import NetPool.Proofs.Asset.Json
import NetPool.Proofs.Files.Path
import NetPool.Proofs.Files.Route
import NetPool.Proofs.Files.Slot
import NetPool.Proofs.Files.Content
import NetPool.Proofs.Files.Apart
import NetPool.Proofs.Files.Confined
import NetPool.Proofs.Files.Numbering
import NetPool.Proofs.Action
import NetPool.Proofs.Lock
import NetPool.Proofs.Lock.Grant
import NetPool.Proofs.Lock.Stage
import NetPool.Proofs.Lock.Contest
import NetPool.Proofs.Lock.Usable
import NetPool.Proofs.Ledger.View
import NetPool.Proofs.Ledger.RoundTrip
import NetPool.Proofs.Net.Overlap
import NetPool.Proofs.Net.Walk
import NetPool.Proofs.Occupancy
import NetPool.Proofs.Occupancy.History
import NetPool.Proofs.Allocation
import NetPool.Proofs.Ledger.Disjoint
import NetPool.Proofs.Session.Acquire
import NetPool.Proofs.Session.Steps
import NetPool.Proofs.Session.Borrow
import NetPool.Proofs.Pool.Run
import NetPool.Proofs.Pool.Disjoint
import NetPool.Proofs.Pool.History
import NetPool.Proofs.Pool.Restore
import NetPool.Proofs.Pool.Failure
import NetPool.Proofs.Allocation.Recording
import NetPool.Proofs.Allocation.FirstFit
import NetPool.Proofs.Allocation.Room
import NetPool.Proofs.CommandLine
import NetPool.Proofs.Hypervisor.Known
import NetPool.Proofs.Hypervisor.Virsh
import NetPool.Proofs.Files.Reopen
import NetPool.Proofs.Lock.Custody
import NetPool.Proofs.Session.Visit
import NetPool.Proofs.Pool.Custody
import NetPool.Proofs.Files.Growth
import NetPool.Proofs.Lock.Outcome
import NetPool.Proofs.Json.Extension
import NetPool.Proofs.Json.Torn
import NetPool.Proofs.Ledger.Torn
import NetPool.Proofs.Session.Torn
import NetPool.Proofs.Session.Reclaim
import NetPool.Proofs.Occupancy.Order
import NetPool.Proofs.Session.Order
import NetPool.Proofs.Allocation.Cap
import NetPool.Proofs.Allocation.Names
import NetPool.Proofs.Asset.Identity
import NetPool.Proofs.Decimal.Binary64
import NetPool.Proofs.Settings.Key
import NetPool.Proofs.Settings.Variable
import NetPool.Proofs.Settings.Value
import NetPool.Proofs.Settings.Layering
import NetPool.Proofs.Settings.Connection
