import Wardn.Admission
import Wardn.Aggregation
import Wardn.Alerts
import Wardn.ApplyOnce
import Wardn.ApplyOrder
import Wardn.Conditions
import Wardn.Convergence
import Wardn.CrashConsistency
import Wardn.FixedPoint
import Wardn.Git.Sharing
import Wardn.Git.Tracking
import Wardn.History
import Wardn.Interleaving
import Wardn.Isolation
import Wardn.Lib.Containment
import Wardn.Manifest.Confinement
import Wardn.Manifest.Identity
import Wardn.Manifest.Joining
import Wardn.Manifest.Rejoining
import Wardn.ManualSync
import Wardn.Memory.InPlace
import Wardn.Platform.Interaction
import Wardn.Platform.ListView
import Wardn.Platform.ResourceGraph
import Wardn.Posts
import Wardn.Pruning
import Wardn.Server.Composition
import Wardn.Server.Decoding
import Wardn.Server.Export
import Wardn.Server.Inventory
import Wardn.Server.Listing
import Wardn.Server.Logout
import Wardn.Server.Privilege
import Wardn.SpecDrift
import Wardn.StatusTable
import Wardn.StatusUpdates
import Wardn.Webhook.OptIn
import Wardn.Webhook.Triggers
import Wardn.Webhook.Writers
