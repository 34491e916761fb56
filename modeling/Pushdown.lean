import Pushdown.Json.Relation
import Pushdown.Json.Printer
import Pushdown.Compile.Statement
import Pushdown.Proofs.Compile.OrderKeys
import Pushdown.Proofs.Meaning.Preservation
import Pushdown.Proofs.Relation.Reachable
import Pushdown.Proofs.Scalar.Expansion
import Pushdown.Proofs.Compile.Resolution
import Pushdown.Proofs.Compile.Writable
import Pushdown.Proofs.Sql.Grammar
import Pushdown.Proofs.Sql.Reader
import Pushdown.Proofs.Sql.RoundTrip
import Pushdown.Proofs.Compile.Keys
import Pushdown.Proofs.Compile.SetInputs
import Pushdown.Proofs.Relation.SetOperations
import Pushdown.Proofs.Meaning.Uniqueness
import Pushdown.Proofs.Relation.Rebuilding
import Pushdown.Proofs.Compile.NullOrdering
import Pushdown.Proofs.Json.Decoder
import Pushdown.Proofs.Json.RoundTrip
import Pushdown.Proofs.Scalar.Acyclic
import Pushdown.Proofs.Relation.RebuildLaws
import Pushdown.Proofs.Compile.Erasure
import Pushdown.Proofs.Meaning.JoinCondition
import Pushdown.Proofs.Relation.DisabledRules
import Pushdown.Proofs.Scalar.Projections
import Pushdown.Proofs.Sql.OrderKeywords
import Pushdown.Proofs.Sql.Quoting
import Pushdown.Proofs.Compile.BlankOrders
import Pushdown.Proofs.Allotment
import Pushdown.Proofs.Relation.AggregateFaults
import Pushdown.Proofs.Sql.LineComments
import Pushdown.Proofs.Compile.Multisets
import Pushdown.Proofs.Compile.Positions
