import IdlDecls.Text.Blank
import IdlDecls.Json.Printer
import IdlDecls.Json.Parser
import IdlDecls.Keyed.Basic
import IdlDecls.Model.Exposure
import IdlDecls.Model.Writer
import IdlDecls.Model.Reader
import IdlDecls.Merge.Graph
import IdlDecls.Integration.Exposing
import IdlDecls.Integration.Fragment
import IdlDecls.Integration.Comments
import IdlDecls.Integration.Integrate
import IdlDecls.View.Extract
import IdlDecls.View.Known
import IdlDecls.Declarations.Emit
import IdlDecls.Toml.Document
import IdlDecls.Run.Plan
import IdlDecls.Main
import IdlDecls.Proofs.Runs
import IdlDecls.Proofs.Text.Pieces
import IdlDecls.Proofs.Integration.Folding
import IdlDecls.Proofs.Integration.Isolation
import IdlDecls.Proofs.Integration.Removed
import IdlDecls.Proofs.Integration.Exposed
import IdlDecls.Proofs.Removal.Pruned
import IdlDecls.Proofs.Removal.PrunedGraph
import IdlDecls.Proofs.Removal.Spared
import IdlDecls.Proofs.View.Kept
import IdlDecls.Proofs.View.Forced
import IdlDecls.Proofs.View.Hidden
import IdlDecls.Proofs.Keyed.Joined
import IdlDecls.Proofs.Exposure.Overriding
import IdlDecls.Proofs.Exposure.Written
import IdlDecls.Proofs.Model.Written
import IdlDecls.Proofs.Model.WrittenTypes
import IdlDecls.Proofs.Model.Restored
import IdlDecls.Proofs.Model.RestoredGraph
import IdlDecls.Proofs.Merge.Identified
import IdlDecls.Proofs.Merge.Inversion
import IdlDecls.Proofs.Merge.Fields
import IdlDecls.Proofs.Merge.Overridden
import IdlDecls.Proofs.Merge.Members
import IdlDecls.Proofs.Merge.Permissive
import IdlDecls.Proofs.Integration.Strict
import IdlDecls.Proofs.Merge.Conserved
import IdlDecls.Proofs.Merge.Lists
import IdlDecls.Proofs.Model.Unknown
import IdlDecls.Proofs.Model.Conventions
import IdlDecls.Proofs.Merge.Conventions
import IdlDecls.Proofs.Removal.Unknown
import IdlDecls.Proofs.Removal.Conventions
import IdlDecls.Proofs.Integration.Fragments
import IdlDecls.Proofs.Integration.Conventions
import IdlDecls.Proofs.Integration.Settled
import IdlDecls.Proofs.Merge.Marks
import IdlDecls.Proofs.Removal.Marks
import IdlDecls.Proofs.Integration.Targets
import IdlDecls.Proofs.Integration.Deprecated
import IdlDecls.Proofs.View.Named
import IdlDecls.Proofs.View.Again
import IdlDecls.Proofs.Run.OutputPaths
import IdlDecls.Proofs.Run.Looking
import IdlDecls.Proofs.Run.Writing
import IdlDecls.Proofs.Run.Generate
import IdlDecls.Proofs.Merge.Disjoint
import IdlDecls.Proofs.Merge.Distinct
import IdlDecls.Proofs.Removal.Distinct
import IdlDecls.Proofs.Integration.Distinct
import IdlDecls.Proofs.Merge.Included
import IdlDecls.Proofs.Removal.Included
import IdlDecls.Proofs.Integration.Included
import IdlDecls.Proofs.Merge.Associates
import IdlDecls.Proofs.Merge.Associative
import IdlDecls.Proofs.Integration.Locality
import IdlDecls.Proofs.View.Monotone
import IdlDecls.Proofs.Integration.Independent
import IdlDecls.Proofs.Integration.Keys
import IdlDecls.Proofs.Declarations.Unnamed
import IdlDecls.Proofs.Integration.Lenient
import IdlDecls.Proofs.Removal.Exact
import IdlDecls.Proofs.Removal.Again
import IdlDecls.Proofs.Removal.AgainFields
import IdlDecls.Proofs.Removal.AgainTypes
import IdlDecls.Proofs.Removal.AgainGraph
import IdlDecls.Proofs.Merge.Sites
import IdlDecls.Proofs.Merge.Conflicts
import IdlDecls.Proofs.Exposure.Resolved
import IdlDecls.Proofs.View.Scoped
import IdlDecls.Proofs.View.Shown
import IdlDecls.Proofs.Declarations.TypeGrammar
import IdlDecls.Proofs.Declarations.TypeMeaning
import IdlDecls.Proofs.Declarations.MemberLines
import IdlDecls.Proofs.Declarations.Files
import IdlDecls.Proofs.Declarations.InterfaceBlocks
import IdlDecls.Proofs.Declarations.NamespaceBlocks
import IdlDecls.Proofs.Text.Comment
import IdlDecls.Proofs.Declarations.Documentation
import IdlDecls.Proofs.Exposure.Ordered
import IdlDecls.Proofs.Integration.Commented
import IdlDecls.Proofs.Removal.Readable
import IdlDecls.Proofs.Declarations.PrintedNames
