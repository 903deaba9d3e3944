import KeEngine.Runtime.DryRun
import KeEngine.Runtime.SemanticExec
import KeEngine.Compiler.T4Premises
import KeEngine.Compiler.FailClosed
import KeEngine.Compiler.GateGraph
import KeEngine.Core.RoundTrip
import KeEngine.Core.Unpadded
import KeEngine.Artifact.Coverage
import KeEngine.Registry.Agreement
import KeEngine.Registry.Attested
import KeEngine.Registry.Resolve
import KeEngine.Registry.Refiling
import KeEngine.Registry.History
import KeEngine.Registry.Compiled
import KeEngine.Artifact.IntentProfile
import KeEngine.Registry.Provenance
import KeEngine.Prog.Faults
import KeEngine.Prog.FileTree
import KeEngine.Registry.Retry
import KeEngine.Registry.ByRegime
import KeEngine.Registry.Isolation
import KeEngine.Registry.Paths
import KeEngine.Registry.RaceLaws
import KeEngine.Artifact.Minimums
import KeEngine.Compiler.T4Order
import KeEngine.Compiler.VacuousScope
import KeEngine.Registry.HashNames
import KeEngine.Runtime.Catalog
import KeEngine.Runtime.DecisionPaths
import KeEngine.Export.Faithful
import KeEngine.Export.Run
import KeEngine.Runtime.Applicability
import KeEngine.Runtime.Integers
import KeEngine.Compiler.Numerals
import KeEngine.Compiler.Windows
import KeEngine.Core.Decimals
import KeEngine.Registry.Thresholds
import KeEngine.Registry.SignedPrefixes
import KeEngine.Export.Lexed
import KeEngine.Export.Union
import KeEngine.Runtime.ScenarioInvariant
import KeEngine.Registry.Interleaved
import KeEngine.Registry.Views
import KeEngine.Serve.Statuses
import KeEngine.Registry.Projection
import KeEngine.Registry.Exchange
import KeEngine.Serve.Surfaces
import KeEngine.Compiler.PythonImport
import KeEngine.Compiler.Differential
import KeEngine.Runtime.Differential
import KeEngine.Artifact.Trust
import KeEngine.Registry.DiskRuns
