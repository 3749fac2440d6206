import ModelText.Automaton.Basic
import ModelText.Automaton.Bound
import ModelText.Automaton.Components
import ModelText.Automaton.FeatureBounds
import ModelText.Automaton.LowLinks
import ModelText.Automaton.Strict
import ModelText.Automaton.Validation
import ModelText.Example.Vehicle
import ModelText.Grammar.AnalysisError
import ModelText.Grammar.Basic
import ModelText.Grammar.Cache
import ModelText.Grammar.Constraint
import ModelText.Grammar.ConstraintJson
import ModelText.Grammar.Description
import ModelText.Grammar.GrammarJson
import ModelText.Graph.Draft
import ModelText.Graph.Model
import ModelText.Graph.Mutation
import ModelText.Graph.Navigation
import ModelText.Graph.Value
import ModelText.Graph.ValueJson
import ModelText.Json.Basic
import ModelText.Json.Decode
import ModelText.Json.Printer
import ModelText.Json.Reader
import ModelText.Metamodel.Metaclass
import ModelText.Metamodel.Metafeature
import ModelText.Metamodel.Schema
import ModelText.Name.Effective
import ModelText.Name.Qualified
import ModelText.Omission.Category
import ModelText.Omission.CategoryJson
import ModelText.Omission.Policy
import ModelText.Options
import ModelText.Proofs.Automaton.Bounds
import ModelText.Proofs.Automaton.Components
import ModelText.Proofs.Automaton.LookUps
import ModelText.Proofs.Automaton.LowLinks
import ModelText.Proofs.Automaton.Search
import ModelText.Proofs.Grammar.Building
import ModelText.Proofs.Grammar.Cache
import ModelText.Proofs.Grammar.ConstraintNames
import ModelText.Proofs.Grammar.Description
import ModelText.Proofs.Grammar.DescriptionJson
import ModelText.Proofs.Grammar.FirstRule
import ModelText.Proofs.Graph.Atomicity
import ModelText.Proofs.Graph.Commuting
import ModelText.Proofs.Graph.Forest
import ModelText.Proofs.Graph.InPlace
import ModelText.Proofs.Graph.Partition
import ModelText.Proofs.Graph.Renaming
import ModelText.Proofs.Graph.Tree
import ModelText.Proofs.Graph.Writes
import ModelText.Proofs.Json.Written
import ModelText.Proofs.Name.Namespaces
import ModelText.Proofs.Name.Overlap
import ModelText.Proofs.Name.Redefinitions
import ModelText.Proofs.Name.Splitting
import ModelText.Proofs.Name.Written
import ModelText.Proofs.Omission.Table
import ModelText.Proofs.Reference.Renaming
import ModelText.Proofs.Reference.Tokens
import ModelText.Proofs.Reference.UniqueNames
import ModelText.Proofs.Scope.History
import ModelText.Proofs.Scope.NameCache
import ModelText.Proofs.Scope.Shadowing
import ModelText.Proofs.Scope.Table
import ModelText.Proofs.Sequence.Accounting
import ModelText.Proofs.Sequence.Copies
import ModelText.Proofs.Sequence.Designation
import ModelText.Proofs.Sequence.Enclosure
import ModelText.Proofs.Sequence.Enforcement
import ModelText.Proofs.Sequence.Linking
import ModelText.Proofs.Sequence.Mirror
import ModelText.Proofs.Sequence.NamesFirst
import ModelText.Proofs.Sequence.Nesting
import ModelText.Proofs.Sequence.Renaming
import ModelText.Proofs.Sequence.Replay
import ModelText.Proofs.Sequence.Reproduction
import ModelText.Proofs.Sequence.RoundTrip
import ModelText.Proofs.Sequence.Trace
import ModelText.Proofs.Sequence.Unconstrained
import ModelText.Proofs.Snapshot.Comparison
import ModelText.Proofs.Snapshot.Copied
import ModelText.Proofs.Snapshot.External
import ModelText.Proofs.Snapshot.Isomorphism
import ModelText.Reference.Resolver
import ModelText.Scope.Containment
import ModelText.Scope.Table
import ModelText.Sequence.Event
import ModelText.Sequence.EventJson
import ModelText.Sequence.Pass
import ModelText.Sequence.Rebuild
import ModelText.Snapshot.Basic
import ModelText.Snapshot.Compare
import ModelText.Snapshot.SnapshotJson
import ModelText.Text.Plain
import ModelText.Text.Quoted
import ModelText.Workspace
