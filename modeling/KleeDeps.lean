import KleeDeps.Py.Text
import KleeDeps.Py.Int
import KleeDeps.Py.Dict
import KleeDeps.Py.Collect
import KleeDeps.Py.Value
import KleeDeps.Py.Regex
import KleeDeps.Data.Sequence
import KleeDeps.Data.FileTree
import KleeDeps.Data.WordMemory
import KleeDeps.Replay.Trace
import KleeDeps.Replay.Culprit
import KleeDeps.Replay.Verdict
import KleeDeps.Replay.Inputs
import KleeDeps.Replay.InputMode
import KleeDeps.Data.SortedSearch
import KleeDeps.Replay.AddressLookup
import KleeDeps.Converters.Counterexamples
import KleeDeps.Converters.Delivery
import KleeDeps.Converters.SpecSizes
import KleeDeps.Converters.ReplayProtocol
import KleeDeps.Converters.OutputLog
import KleeDeps.Converters.WorkerLog
import KleeDeps.Converters.CaseRows
import KleeDeps.Shared.ColumnMetadata
import KleeDeps.Postprocess.VerificationTimings
import KleeDeps.Postprocess.Verdicts
import KleeDeps.Runner.Inputs
import KleeDeps.Runner.Config
import KleeDeps.Converters.SecretLayout
import KleeDeps.Converters.SecretOrders
import KleeDeps.Experiments.Cases
import KleeDeps.Experiments.ReplayInputs
import KleeDeps.Shared.Registry
import KleeDeps.Experiments.LayoutSizes
import KleeDeps.Validation.ReplayExecutables
import KleeDeps.Postprocess.Locations
import KleeDeps.Postprocess.MergeResults
import KleeDeps.Postprocess.ReproductionStatus
import KleeDeps.Postprocess.Pooling
import KleeDeps.Postprocess.Repetitions
import KleeDeps.Experiments.Campaigns
import KleeDeps.Data.OuterJoin
import KleeDeps.Postprocess.Tables
import KleeDeps.Postprocess.Findings
import KleeDeps.Postprocess.Joining
import KleeDeps.Postprocess.SlicedTargets
import KleeDeps.Postprocess.CountedFindings
import KleeDeps.Binsec.HeapModel
import KleeDeps.Binsec.ConfigRewrite
import KleeDeps.Experiments.OutputForwarding
import KleeDeps.Experiments.Scheduler
import KleeDeps.Data.Runs
import KleeDeps.Experiments.WorkspaceCopies
import KleeDeps.Experiments.CopyOrder
import KleeDeps.Experiments.CopyStatus
import KleeDeps.Experiments.CopyInterrupt
import KleeDeps.Experiments.CopyOutput
import KleeDeps.Experiments.CopyProgress
import KleeDeps.LoopLimiter.Function
import KleeDeps.LoopLimiter.Execution
import KleeDeps.LoopLimiter.Rewriting
import KleeDeps.LoopLimiter.Instrumented
import KleeDeps.LoopLimiter.Bound
import KleeDeps.LoopLimiter.Iterations
import KleeDeps.LoopLimiter.Image
import KleeDeps.LoopLimiter.Preservation
import KleeDeps.Converters.DivergentForms
import KleeDeps.Converters.SeedReplay
import KleeDeps.Converters.KTest
import KleeDeps.Converters.StoredLocations
import KleeDeps.Postprocess.Conservation
import KleeDeps.Converters.KleeLog
import KleeDeps.Postprocess.WideTable
import KleeDeps.Converters.AbacusLog
import KleeDeps.Converters.AbacusRecords
import KleeDeps.Converters.AbacusOrder
import KleeDeps.Runner.Assumptions
import KleeDeps.Runner.OriginalStdin
import KleeDeps.Shared.CombinedJson
import KleeDeps.Postprocess.BestConfiguration
import KleeDeps.Postprocess.LatexTable
import KleeDeps.Py.Digits
import KleeDeps.Experiments.Durations
import KleeDeps.Data.Spans
import KleeDeps.Replay.StatementSpans
import KleeDeps.Data.Residues
import KleeDeps.Utilities.RsaKey
import KleeDeps.Utilities.RsaDefaults
import KleeDeps.Data.BestByKey
import KleeDeps.Postprocess.Selection
import KleeDeps.Postprocess.ConfigurationSummary
import KleeDeps.Postprocess.SummaryTables
import KleeDeps.Postprocess.TabularRows
import KleeDeps.Data.Writers
import KleeDeps.Experiments.Reruns
import KleeDeps.Shared.BenchmarkSelection
import KleeDeps.Experiments.CaseTasks
import KleeDeps.Experiments.CaseRunner
import KleeDeps.Py.DictUnion
import KleeDeps.Postprocess.PublishedColumns
