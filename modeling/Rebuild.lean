import Rebuild.Main
import Rebuild.Graph.SourceTable
import Rebuild.Proofs.Graph.Contents
import Rebuild.Proofs.Graph.Cycles
import Rebuild.Proofs.Graph.Marking
import Rebuild.Proofs.Project.Scan
import Rebuild.Proofs.Graph.Precedence
import Rebuild.Proofs.Graph.Confluence
import Rebuild.Proofs.Path.Characters
import Rebuild.Proofs.Project.Built
import Rebuild.Proofs.Project.Plan
import Rebuild.Proofs.Project.BuildOrder
import Rebuild.Proofs.Project.Interruption
import Rebuild.Proofs.Path.Composition
import Rebuild.Proofs.Path.LastName
import Rebuild.Proofs.Require.Calls
import Rebuild.Proofs.Require.Decomposition
import Rebuild.Proofs.Require.References
import Rebuild.Proofs.FileTree.Descent
import Rebuild.Proofs.Project.Placement
import Rebuild.Proofs.Project.NamedFiles
import Rebuild.Proofs.Project.Selection
import Rebuild.Proofs.FileTree.Writing
import Rebuild.Proofs.Graph.Narrowing
import Rebuild.Proofs.Graph.Requests
import Rebuild.Proofs.Project.Artifacts
import Rebuild.Proofs.Project.Rebuilding
import Rebuild.Proofs.Project.Convergence
import Rebuild.Proofs.Project.Failures
import Rebuild.Proofs.CommandLine.Gate
import Rebuild.Proofs.Graph.Chains
import Rebuild.Proofs.Require.Occurrences
import Rebuild.Proofs.Require.Tokens
import Rebuild.Proofs.FileTree.Walk
import Rebuild.Proofs.Path.NormalForm
import Rebuild.Proofs.Glob.Matching
import Rebuild.Proofs.Lookup.Containment
import Rebuild.Proofs.Path.Reanchoring
import Rebuild.Proofs.Project.Spelling
import Rebuild.Proofs.Project.Configuration
import Rebuild.Proofs.Graph.OrderedSets
import Rebuild.Proofs.Graph.Fixpoint
import Rebuild.Proofs.Require.Scanning
import Rebuild.Proofs.Project.ModuleSearch
