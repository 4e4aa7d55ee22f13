import ContentEngine.Config.Reader
import ContentEngine.Engine.Read
import ContentEngine.Engine.Write
import ContentEngine.Json.Members
import ContentEngine.Lifecycle.Edit
import ContentEngine.Sample.Blog
import ContentEngine.Schema.Reader
import ContentEngine.Value.Same
import ContentEngine.Proofs.Filter.Families
import ContentEngine.Proofs.Filter.Compilation
import ContentEngine.Proofs.Clock.Settles
import ContentEngine.Proofs.Entries
import ContentEngine.Proofs.Store.Contents
import ContentEngine.Proofs.Populate.Instances
import ContentEngine.Proofs.Populate.Batching
import ContentEngine.Proofs.Populate.Levels
import ContentEngine.Proofs.Populate.Populated
import ContentEngine.Proofs.Populate.Cycles
import ContentEngine.Proofs.Populate.BranchFilter
import ContentEngine.Proofs.Store.Published
import ContentEngine.Proofs.Engine.Published
import ContentEngine.Proofs.Clock.Does
import ContentEngine.Proofs.Lifecycle.Course
import ContentEngine.Proofs.Lifecycle.Trace
import ContentEngine.Proofs.Lifecycle.Atomicity
import ContentEngine.Proofs.Filter.Unambiguous
import ContentEngine.Proofs.Filter.Reading
import ContentEngine.Proofs.Filter.Behind
import ContentEngine.Proofs.Predicate.Sharing
import ContentEngine.Proofs.Engine.History
import ContentEngine.Proofs.Store.Slots
import ContentEngine.Proofs.Engine.Slots
import ContentEngine.Proofs.Lifecycle.Conformity
import ContentEngine.Proofs.Engine.Conformity
import ContentEngine.Proofs.Page
import ContentEngine.Proofs.Window
import ContentEngine.Proofs.Store.Scan
import ContentEngine.Proofs.Clock.Alike
import ContentEngine.Proofs.Populate.Opened
import ContentEngine.Proofs.Populate.CutDown
import ContentEngine.Proofs.Populate.InStep
import ContentEngine.Proofs.Engine.Paging
import ContentEngine.Proofs.Engine.Fields
import ContentEngine.Proofs.Engine.Reading
import ContentEngine.Proofs.Engine.Refusals
import ContentEngine.Proofs.Schema.Closed
import ContentEngine.Proofs.Populate.Defaults
import ContentEngine.Proofs.Engine.Required
import ContentEngine.Proofs.Value.Rendering
import ContentEngine.Proofs.Lifecycle.Rewriting
import ContentEngine.Proofs.Clock.Budget
import ContentEngine.Proofs.Populate.Fetches
import ContentEngine.Proofs.Filter.Typing
import ContentEngine.Proofs.Engine.Cancellations
import ContentEngine.Proofs.Engine.Deadlines
import ContentEngine.Proofs.Engine.Shown
import ContentEngine.Proofs.Metrics
import ContentEngine.Proofs.Engine.Tallies
import ContentEngine.Proofs.Value.Order
import ContentEngine.Proofs.Instant.Order
import ContentEngine.Proofs.Store.Sorted
import ContentEngine.Proofs.Filter.Agreement
import ContentEngine.Proofs.Text.Lowering
import ContentEngine.Proofs.Filter.Insensitive
import ContentEngine.Proofs.Filter.Resolved
import ContentEngine.Proofs.Filter.Blank
import ContentEngine.Proofs.Lifecycle.Kept
import ContentEngine.Proofs.Lifecycle.JsonAttribute
import ContentEngine.Proofs.Populate.Rendered
import ContentEngine.Proofs.Populate.Bare
import ContentEngine.Proofs.Populate.Paths
import ContentEngine.Proofs.Engine.Conveniences
