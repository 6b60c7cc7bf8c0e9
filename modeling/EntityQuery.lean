import EntityQuery.Decimal
import EntityQuery.Digest.Numbering
import EntityQuery.Entity.Condition
import EntityQuery.Formula.Outline
import EntityQuery.PageExpr.Bound
import EntityQuery.PageExpr.Parser
import EntityQuery.Session
import EntityQuery.Proofs.Pages.Bound
import EntityQuery.Proofs.Pages.Table
import EntityQuery.Proofs.Pages.Walk
import EntityQuery.Proofs.Sort.FullOrder
import EntityQuery.Proofs.Sort.Places
import EntityQuery.Proofs.Sort.Slice
import EntityQuery.Proofs.Engine.PageWalk
import EntityQuery.Proofs.Engine.Policies
import EntityQuery.Proofs.Cache.Analysed
import EntityQuery.Proofs.Cache.Course
import EntityQuery.Proofs.Cache.Transparent
import EntityQuery.Proofs.Cache.Recorded
import EntityQuery.Proofs.Cache.Accounting
import EntityQuery.Proofs.Cache.RecordSize
import EntityQuery.Proofs.Cache.Expiry
import EntityQuery.Proofs.Cache.Uses
import EntityQuery.Proofs.Cache.Identity
import EntityQuery.Proofs.Formula.Canonical
import EntityQuery.Proofs.PageExpr.RoundTrip
import EntityQuery.Proofs.PageExpr.LastPage
import EntityQuery.Proofs.Decimal.Conversion
import EntityQuery.Proofs.Decimal.RoundTrip
import EntityQuery.Proofs.Pages.Requests
import EntityQuery.Proofs.Sort.Merged
import EntityQuery.Proofs.Cache.ServedBodies
import EntityQuery.Proofs.Cache.Enumeration
import EntityQuery.Proofs.Cache.MoreUses
import EntityQuery.Proofs.Formula.Meaning
import EntityQuery.Proofs.Planning.Rewriting
import EntityQuery.Proofs.Decimal.Windows
import EntityQuery.Proofs.Pages.Reserved
import EntityQuery.Proofs.Planning.Cheap
import EntityQuery.Proofs.Sort.Distinct
import EntityQuery.Proofs.Cache.Arrivals
import EntityQuery.Proofs.Engine.Asking
import EntityQuery.Proofs.Engine.Bodies
import EntityQuery.Proofs.Planning.Cardinality
import EntityQuery.Proofs.Cache.EarlySweeps
