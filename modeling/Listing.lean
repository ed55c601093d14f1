import Listing.Expect
import Listing.Fetch
import Listing.Main
import Listing.Sample.Country
import Listing.Statement.Inlined
import Listing.Proofs.Catalog.Reachable
import Listing.Proofs.Query.Values
import Listing.Proofs.Filter.Split
import Listing.Proofs.Filter.Traced
import Listing.Proofs.Query.AllowList
import Listing.Proofs.Query.Paging
import Listing.Proofs.Statement.Literals
import Listing.Proofs.Condition.Raw
import Listing.Proofs.Filter.Comparison
import Listing.Proofs.Query.Guarded
import Listing.Proofs.Query.Placed
import Listing.Proofs.Filter.Accepted
import Listing.Proofs.Query.Calls
import Listing.Proofs.Query.Pruned
import Listing.Proofs.Catalog.Described
import Listing.Proofs.Query.Shared
import Listing.Proofs.Command.Explained
import Listing.Proofs.Sql.Strings
import Listing.Proofs.Statement.Decoded
import Listing.Proofs.Statement.Numbered
import Listing.Proofs.Query.Sorting
import Listing.Proofs.Filter.Shapes
import Listing.Proofs.Filter.Patterns
import Listing.Proofs.Query.Windows
import Listing.Proofs.Statement.Segmented
import Listing.Proofs.Filter.Respelled
import Listing.Proofs.Text.Lowered
import Listing.Proofs.Filter.Lowered
import Listing.Proofs.Query.Sizes
import Listing.Proofs.Catalog.Refused
import Listing.Proofs.Catalog.Surface
import Listing.Proofs.Condition.References
import Listing.Proofs.Query.Wrapped
import Listing.Proofs.Catalog.Kept
import Listing.Proofs.Statement.Quoted
import Listing.Proofs.Column.Usable
import Listing.Proofs.Column.Declared
import Listing.Proofs.Expect
import Listing.Proofs.Request.Wire
