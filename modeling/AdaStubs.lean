import AdaStubs.Ada.Body
import AdaStubs.Ada.Codec
import AdaStubs.Ada.Declaration
import AdaStubs.Ada.Identifier
import AdaStubs.Ada.IndexNest
import AdaStubs.Ada.Item
import AdaStubs.Ada.Literal
import AdaStubs.Ada.Qualified
import AdaStubs.Ada.Stub
import AdaStubs.Ada.Subprogram
import AdaStubs.Artifact
import AdaStubs.Bound
import AdaStubs.Decimal.Shortest
import AdaStubs.Dependencies
import AdaStubs.Emission.Call
import AdaStubs.Emission.Declare
import AdaStubs.Emission.Encode
import AdaStubs.Emission.Reference
import AdaStubs.Emission.Resolve
import AdaStubs.Emission.Session
import AdaStubs.Emission.Stubs
import AdaStubs.Error
import AdaStubs.FixedSize
import AdaStubs.Generation
import AdaStubs.Idl.Alias
import AdaStubs.Idl.Build
import AdaStubs.Idl.Node
import AdaStubs.Idl.Primitive
import AdaStubs.Idl.Tree
import AdaStubs.Idl.Value
import AdaStubs.Naming.Namespace
import AdaStubs.Naming.Table
import AdaStubs.Progress
import AdaStubs.Samples
import AdaStubs.Settings
import AdaStubs.Text.Blank
import AdaStubs.Text.Writer
import AdaStubs.Proofs.Idl.Arena
import AdaStubs.Proofs.Idl.Scopes
import AdaStubs.Proofs.Idl.Listings
import AdaStubs.Proofs.Ada.Spelling
import AdaStubs.Proofs.Naming.Assignment
import AdaStubs.Proofs.Run
import AdaStubs.Proofs.Naming.Refinement
import AdaStubs.Proofs.Naming.Queries
import AdaStubs.Proofs.Conduct
import AdaStubs.Proofs.Emission.Footprint
import AdaStubs.Proofs.Emission.External
import AdaStubs.Proofs.Emission.Position
import AdaStubs.Proofs.Emission.Reference
import AdaStubs.Proofs.Generation.Phases
import AdaStubs.Proofs.Emission.Backing
import AdaStubs.Proofs.Generation.Clauses
import AdaStubs.Proofs.Emission.Trace
import AdaStubs.Proofs.Emission.Writing
import AdaStubs.Proofs.Generation.SingleEmission
import AdaStubs.Proofs.Emission.History
import AdaStubs.Proofs.Generation.Course
import AdaStubs.Proofs.Generation.DeclarationOrder
import AdaStubs.Proofs.Emission.Resolution
import AdaStubs.Proofs.FixedSize
import AdaStubs.Proofs.Emission.Completion
import AdaStubs.Proofs.Generation.Completion
import AdaStubs.Proofs.Ada.Letters
import AdaStubs.Proofs.Naming.Qualified
import AdaStubs.Proofs.Generation.FileNames
import AdaStubs.Proofs.Generation.Allowance
import AdaStubs.Proofs.Generation.Configured
import AdaStubs.Proofs.Generation.SpecificationOnly
import AdaStubs.Proofs.Emission.Advance
import AdaStubs.Proofs.Emission.Sessions
import AdaStubs.Proofs.Agreement
import AdaStubs.Proofs.Emission.Agreement
import AdaStubs.Proofs.Generation.Independence
import AdaStubs.Proofs.Emission.Composites
import AdaStubs.Proofs.Ada.Identifiers
import AdaStubs.Proofs.Generation.Identifiers
import AdaStubs.Proofs.Emission.Options
import AdaStubs.Proofs.Emission.Ready
import AdaStubs.Proofs.Generation.Servants
import AdaStubs.Proofs.Generation.Options
import AdaStubs.Proofs.ElementCount
import AdaStubs.Proofs.Emission.Sizes
import AdaStubs.Proofs.Generation.UnitOrder
import AdaStubs.Proofs.Generation.Dispatch
import AdaStubs.Proofs.Naming.Legality
import AdaStubs.Proofs.Naming.Growth
import AdaStubs.Proofs.Naming.Ownership
import AdaStubs.Proofs.Emission.Alternatives
import AdaStubs.Proofs.Ada.StringLiterals
import AdaStubs.Proofs.Ada.IndexNests
import AdaStubs.Proofs.Idl.Steps
import AdaStubs.Proofs.Idl.Aliases
import AdaStubs.Proofs.Text.Writer
import AdaStubs.Proofs.Ada.NestText
import AdaStubs.Proofs.Emission.ArrayPlans
import AdaStubs.Proofs.Naming.Words
import AdaStubs.Proofs.Emission.ClientStubs
