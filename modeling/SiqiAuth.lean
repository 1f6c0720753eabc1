import SiqiAuth.Lib.Query
import SiqiAuth.Lib.Run
import SiqiAuth.Store.Schema
import SiqiAuth.Store.Select
import SiqiAuth.Store.Connection
import SiqiAuth.Store.PermissionDAO
import SiqiAuth.Store.Effect
import SiqiAuth.Store.InitSql
import SiqiAuth.Store.InitRows
import SiqiAuth.Store.Ownership
import SiqiAuth.Store.Reading
import SiqiAuth.Store.Decision
import SiqiAuth.Store.Isolation
import SiqiAuth.Store.Revival
import SiqiAuth.Service.LocalCache
import SiqiAuth.Service.Server
import SiqiAuth.Service.AuthService
import SiqiAuth.Service.AdminService
import SiqiAuth.Service.Rpc
import SiqiAuth.Store.UserPermissions
import SiqiAuth.Service.FailedRead
import SiqiAuth.Service.CacheKey
import SiqiAuth.Service.DecisionPaths
import SiqiAuth.Service.DisabledApp
import SiqiAuth.Service.SessionGate
import SiqiAuth.Store.Touches
import SiqiAuth.Service.Coherence
import SiqiAuth.Lib.Pool
import SiqiAuth.Service.Interleaving
import SiqiAuth.Service.LostInvalidation
import SiqiAuth.Lib.Related
import SiqiAuth.Service.FailClosed
import SiqiAuth.Store.ConnectionPool
import SiqiAuth.Store.HoldAndWait
import SiqiAuth.Store.References
import SiqiAuth.Store.Writes
import SiqiAuth.Store.Interaction
import SiqiAuth.Service.AuditTrail
import SiqiAuth.Store.Progress
import SiqiAuth.Store.OneApp
import SiqiAuth.Store.Links
import SiqiAuth.Store.Edits
import SiqiAuth.Service.Staleness
import SiqiAuth.Service.Spelling
import SiqiAuth.Service.Denial
import SiqiAuth.Service.Suggestions
import SiqiAuth.Service.LookupFailure
import SiqiAuth.Store.UpdateContract
import SiqiAuth.Service.FailedEdit
import SiqiAuth.Lib.Separated
import SiqiAuth.Lib.Grouping
import SiqiAuth.Lib.Paging
import SiqiAuth.Store.Listings
import SiqiAuth.Store.ListedKeys
import SiqiAuth.Store.Totals
import SiqiAuth.Store.PageBorders
import SiqiAuth.Service.PageArithmetic
import SiqiAuth.Lib.Pattern
import SiqiAuth.Service.NameSearch
import SiqiAuth.Lib.TimedMap
import SiqiAuth.Service.TimedCache
import SiqiAuth.Lib.Rbac
import SiqiAuth.Store.View
import SiqiAuth.Store.ViewRows
import SiqiAuth.Store.ViewLinks
import SiqiAuth.Store.Refinement
import SiqiAuth.Lib.Simulation
import SiqiAuth.Store.Serial
import SiqiAuth.Store.Histories
import SiqiAuth.Store.Answers
import SiqiAuth.Service.History
import SiqiAuth.Service.Convergence
import SiqiAuth.Service.Healing
import SiqiAuth.Service.Provenance
import SiqiAuth.Service.Accountability
import SiqiAuth.Client.AdminTool
import SiqiAuth.Store.Capacity
import SiqiAuth.Store.Browsing
