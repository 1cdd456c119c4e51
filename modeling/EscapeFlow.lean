import EscapeFlow.Analysis
import EscapeFlow.Config.File
import EscapeFlow.Program.Draft
import EscapeFlow.Report.Codec
import EscapeFlow.Proofs.FlowPath
import EscapeFlow.Proofs.LeakOrder
import EscapeFlow.Proofs.Teaching
import EscapeFlow.Proofs.WalkStep
import EscapeFlow.Proofs.RootWalk
import EscapeFlow.Proofs.SumsFit
import EscapeFlow.Proofs.Attributes
import EscapeFlow.Proofs.Distances
import EscapeFlow.Proofs.LeakSummary
import EscapeFlow.Proofs.CallExpansion
import EscapeFlow.Proofs.Inlining
import EscapeFlow.Proofs.LowLink
import EscapeFlow.Proofs.Components
import EscapeFlow.Proofs.Nesting
import EscapeFlow.Proofs.Batches
import EscapeFlow.Proofs.Coupling
import EscapeFlow.Proofs.Lockstep
import EscapeFlow.Proofs.LockstepBodies
import EscapeFlow.Proofs.Placing
import EscapeFlow.Proofs.Covering
import EscapeFlow.Proofs.PreciseCalls
import EscapeFlow.Proofs.AnalysisRun
import EscapeFlow.Proofs.SummaryOrder
import EscapeFlow.Proofs.Ancestors
import EscapeFlow.Proofs.DraftTables
import EscapeFlow.Proofs.Decisions
import EscapeFlow.Proofs.Changes
import EscapeFlow.Proofs.BuildEffects
import EscapeFlow.Proofs.BodyEffects
import EscapeFlow.Proofs.WellFormed
import EscapeFlow.Proofs.Captures
import EscapeFlow.Proofs.ExternalCalls
import EscapeFlow.Proofs.InternalErrors
import EscapeFlow.Proofs.References
import EscapeFlow.Proofs.Circles
import EscapeFlow.Proofs.BatchOrder
import EscapeFlow.Proofs.Extension
import EscapeFlow.Proofs.Modularity
import EscapeFlow.Proofs.Monotone
import EscapeFlow.Proofs.Diagnostics
import EscapeFlow.Proofs.Evolution
import EscapeFlow.Proofs.Embedding
import EscapeFlow.Proofs.Simulation
import EscapeFlow.Proofs.SimulationBodies
import EscapeFlow.Proofs.DeclDepths
import EscapeFlow.Proofs.Recasting
import EscapeFlow.Proofs.Statements
import EscapeFlow.Proofs.AddedStatements
import EscapeFlow.Proofs.Agreement
import EscapeFlow.Proofs.Reordering
import EscapeFlow.Proofs.Shortcut
import EscapeFlow.Proofs.WalkCount
import EscapeFlow.Proofs.Trails
import EscapeFlow.Proofs.Explanations
import EscapeFlow.Proofs.LeakText
import EscapeFlow.Proofs.LoopDepths
import EscapeFlow.Proofs.DraftLists
