import CodeGraph.Data.Dict
import CodeGraph.Numeric.Floating
import CodeGraph.Model.Schema
import CodeGraph.Model.Value
import CodeGraph.Text.Character
import CodeGraph.Graph.Traversal
import CodeGraph.Json.Parser
import CodeGraph.Store.Nearest
import CodeGraph.Snapshot.Format
import CodeGraph.Writing.Entry
import CodeGraph.Java.Extraction
import CodeGraph.Embedding.Job
import CodeGraph.Chat.Digest
import CodeGraph.Endpoint.Inference
import CodeGraph.Endpoint.Completion
import CodeGraph.Settings.Environment
import CodeGraph.Settings.Providers
import CodeGraph.Indexing.Pass
import CodeGraph.Snapshot.Files
import CodeGraph.Service.Handling
import CodeGraph.Command.Run
import CodeGraph.Main
import CodeGraph.Proofs.Java.Hierarchy
import CodeGraph.Proofs.Java.OuterTypes
import CodeGraph.Proofs.Java.Resolution
import CodeGraph.Proofs.Data.Dict
import CodeGraph.Proofs.Snapshot.Format
import CodeGraph.Proofs.Graph.WellFormed
import CodeGraph.Proofs.Store.WellFormed
import CodeGraph.Proofs.Snapshot.Rebuild
import CodeGraph.Proofs.Snapshot.Size
import CodeGraph.Proofs.Files.FileTree
import CodeGraph.Proofs.Store.Reachable
import CodeGraph.Proofs.Snapshot.Reload
import CodeGraph.Proofs.Graph.Content
import CodeGraph.Proofs.Graph.Distance
import CodeGraph.Proofs.Graph.Operations
import CodeGraph.Proofs.Graph.Keyed
import CodeGraph.Proofs.Writing.Upserts
import CodeGraph.Proofs.Java.Steps
import CodeGraph.Proofs.Java.Walks
import CodeGraph.Proofs.Java.Declared
import CodeGraph.Proofs.Java.Extracted
import CodeGraph.Proofs.Indexing.Passes
import CodeGraph.Proofs.Indexing.Owners
import CodeGraph.Proofs.Indexing.Order
import CodeGraph.Proofs.Indexing.Convergence
import CodeGraph.Proofs.Indexing.Success
import CodeGraph.Proofs.Graph.Listing
import CodeGraph.Proofs.Store.History
import CodeGraph.Proofs.Store.KeyAttribute
import CodeGraph.Proofs.Graph.Traversal
import CodeGraph.Proofs.Store.Nearest
import CodeGraph.Proofs.Retrieval.Views
import CodeGraph.Proofs.Graph.Discovery
import CodeGraph.Proofs.Retrieval.Expansion
import CodeGraph.Proofs.Store.Ranking
import CodeGraph.Proofs.Embedding.Rounds
import CodeGraph.Proofs.Embedding.Outcome
import CodeGraph.Proofs.Store.Calls
import CodeGraph.Proofs.Embedding.Interleaving
import CodeGraph.Proofs.Indexing.InPlace
import CodeGraph.Proofs.Java.Parts
import CodeGraph.Proofs.Java.Written
import CodeGraph.Proofs.Writing.Schema
import CodeGraph.Proofs.Indexing.Exclusion
import CodeGraph.Proofs.Java.Scopes
import CodeGraph.Proofs.Java.Headers
import CodeGraph.Proofs.Indexing.Supertypes
import CodeGraph.Proofs.Indexing.Memberships
import CodeGraph.Proofs.Files.Path
import CodeGraph.Proofs.Files.Walk
import CodeGraph.Proofs.Indexing.Walked
import CodeGraph.Proofs.Indexing.Containment
import CodeGraph.Proofs.Service.Answers
import CodeGraph.Proofs.Service.Course
import CodeGraph.Proofs.Retrieval.Outcome
import CodeGraph.Proofs.Indexing.Declarations
import CodeGraph.Proofs.Java.Entered
import CodeGraph.Proofs.Java.Inherited
import CodeGraph.Proofs.Java.Signatures
import CodeGraph.Proofs.Java.ReturnTypes
import CodeGraph.Proofs.Java.Fitting
import CodeGraph.Proofs.Java.Varargs
import CodeGraph.Proofs.Chat.Digest
import CodeGraph.Proofs.Text.Budget
import CodeGraph.Proofs.Endpoint.Alignment
import CodeGraph.Proofs.Java.Events
import CodeGraph.Proofs.Java.Visibility
import CodeGraph.Proofs.Java.Environments
import CodeGraph.Proofs.Text.Truncation
import CodeGraph.Proofs.Text.Dedent
import CodeGraph.Proofs.Embedding.Words
