import EntityQuery.Catalog.Codec
import EntityQuery.Expr.Codec
import EntityQuery.Proofs.Chains.Reports
import EntityQuery.Proofs.Clauses.Result
import EntityQuery.Proofs.Copying.Redirect
import EntityQuery.Proofs.Lockstep.Statement
import EntityQuery.Proofs.Masking.Statement
import EntityQuery.Proofs.Ownership.Result
import EntityQuery.Proofs.Parsing.Rules
import EntityQuery.Proofs.Planning.Once
import EntityQuery.Proofs.Projections.Result
import EntityQuery.Proofs.Registry.Result
import EntityQuery.Proofs.Sql.Constants
import EntityQuery.Proofs.Transport.Result
import EntityQuery.Proofs.Writes.Result
import EntityQuery.Proofs.Writes.Scopes
import EntityQuery.Provider.Basic
import EntityQuery.Proofs.Planning.Order
import EntityQuery.Proofs.Planning.ForeignKeys
import EntityQuery.Proofs.Joining.Steps
import EntityQuery.Proofs.Joining.Canonical
import EntityQuery.Proofs.Fragments.Paths
import EntityQuery.Proofs.Fragments.RoundTrip
import EntityQuery.Proofs.Planning.Layouts
import EntityQuery.Proofs.Registry.Rejected
import EntityQuery.Proofs.Roots.Result
import EntityQuery.Proofs.Layouts.Result
import EntityQuery.Proofs.Joining.Validation
import EntityQuery.Proofs.Layouts.Records
import EntityQuery.Proofs.Patterns.Result
import EntityQuery.Proofs.Sql.Casts
import EntityQuery.Proofs.Paths.Dotted
import EntityQuery.Proofs.Environments.Files
import EntityQuery.Proofs.Climbing.Result
import EntityQuery.Proofs.Equality.Result
