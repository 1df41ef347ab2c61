import ValueText.Text.Units
import ValueText.Text.Numeral
import ValueText.Text.CodePoints
import ValueText.Text.Nongraphic
import ValueText.Text.Combining
import ValueText.Text.Literal
import ValueText.Text.Split
import ValueText.Text.Clock
import ValueText.Table
import ValueText.StableSort
import ValueText.Enumeration
import ValueText.Decimal.Shortest
import ValueText.Decimal.Positional
import ValueText.Buffer.Region
import ValueText.Buffer.Builder
import ValueText.Buffer.Display
import ValueText.Buffer.Segment
import ValueText.Buffer.Snapshot
import ValueText.Buffer.Pool
import ValueText.Buffer.Workspace
import ValueText.Buffer.Lending
import ValueText.Types.Host
import ValueText.Types.Descriptor
import ValueText.Types.DisplayName
import ValueText.Types.Method
import ValueText.Types.Value
import ValueText.Types.Description
import ValueText.Types.Catalog
import ValueText.Registry.Error
import ValueText.Registry.Specificity
import ValueText.Registry.Factory
import ValueText.Registry.Label
import ValueText.Formatter.Writing
import ValueText.Formatter.EnumNames
import ValueText.Formatter.Basic
import ValueText.Formatter.Tag
import ValueText.Repository.Basic
import ValueText.Repository.Writing
import ValueText.Repository.World
import ValueText.Proofs.Text.Surrogates
import ValueText.Proofs.Text.Numerals
import ValueText.Proofs.Text.Segments
import ValueText.Proofs.Text.Patterns
import ValueText.Proofs.Enumeration.Decomposition
import ValueText.Proofs.Enumeration.Decoding
import ValueText.Proofs.Enumeration.SingleBits
import ValueText.Proofs.Buffer.Content
import ValueText.Proofs.Buffer.Session
import ValueText.Proofs.Buffer.Reading
import ValueText.Proofs.Buffer.Freshness
import ValueText.Proofs.Buffer.Freezing
import ValueText.Proofs.Buffer.Bounded
import ValueText.Proofs.Buffer.Appending
import ValueText.Proofs.Buffer.Refinement
import ValueText.Proofs.Buffer.Texts
import ValueText.Proofs.Buffer.Ownership
import ValueText.Proofs.Buffer.Retirement
import ValueText.Proofs.Buffer.Staleness
import ValueText.Proofs.Buffer.Disposal
import ValueText.Proofs.Buffer.Alike
import ValueText.Proofs.Buffer.Mirroring
import ValueText.Proofs.Buffer.Reuse
import ValueText.Proofs.Buffer.Pooling
import ValueText.Proofs.Buffer.Lending
import ValueText.Proofs.Buffer.Borrowing
import ValueText.Proofs.Buffer.Checked
import ValueText.Proofs.Buffer.PanicFree
import ValueText.Proofs.Buffer.Integers
import ValueText.Proofs.Buffer.Copying
import ValueText.Proofs.Buffer.Handles
import ValueText.Proofs.Buffer.Displaying
import ValueText.Proofs.Formatter.Atomic
import ValueText.Proofs.Formatter.Naming
import ValueText.Proofs.Types.Ancestry
import ValueText.Proofs.Types.Orderly
import ValueText.Proofs.Types.Links
import ValueText.Proofs.Types.Chains
import ValueText.Proofs.Types.Casting
import ValueText.Proofs.Types.Optional
import ValueText.Proofs.Types.Origins
import ValueText.Proofs.Types.Termination
import ValueText.Proofs.Types.Conversions
import ValueText.Proofs.Types.OwnInterfaces
import ValueText.Proofs.Types.Instances
import ValueText.Proofs.Types.Nesting
import ValueText.Proofs.Types.HostNames
import ValueText.Proofs.Types.NamedTypes
import ValueText.Proofs.Types.MethodNames
import ValueText.Proofs.Registry.Candidates
import ValueText.Proofs.Registry.History
import ValueText.Proofs.Registry.Precedence
import ValueText.Proofs.Registry.Registration
import ValueText.Proofs.Registry.Subscriptions
import ValueText.Proofs.Registry.Unfailing
import ValueText.Proofs.Registry.Succession
import ValueText.Proofs.Registry.Independence
import ValueText.Proofs.Registry.Renumbering
import ValueText.Proofs.Registry.Holding
import ValueText.Proofs.Repository.Rules
import ValueText.Proofs.Repository.Holding
import ValueText.Proofs.Repository.Hosts
import ValueText.Proofs.Formatter.Parallel
import ValueText.Proofs.Formatter.Candid
import ValueText.Proofs.Formatter.Rendering
import ValueText.Proofs.Repository.Delegation
import ValueText.Proofs.Repository.Atomicity
import ValueText.Proofs.Repository.History
import ValueText.Proofs.Repository.Applying
import ValueText.Proofs.Repository.Settled
import ValueText.Proofs.Repository.Agreement
import ValueText.Proofs.Repository.Pools
import ValueText.Proofs.Repository.Counterparts
import ValueText.Proofs.Repository.Resetting
import ValueText.Proofs.Repository.Unwrapping
import ValueText.Proofs.Repository.Formatting
import ValueText.Proofs.Registry.Commutation
import ValueText.Proofs.Registry.Retrying
import ValueText.Proofs.Registry.Accounting
import ValueText.Proofs.Registry.Construction
import ValueText.Proofs.Registry.Arguments
