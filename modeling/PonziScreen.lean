import PonziScreen.Contract.Format
import PonziScreen.Facts.Report
import PonziScreen.Network.ConfigFormat
import PonziScreen.Network.Evaluation
import PonziScreen.Proofs.Acceptance
import PonziScreen.Proofs.Agreement
import PonziScreen.Proofs.AttentionMean
import PonziScreen.Proofs.CheckedReal
import PonziScreen.Proofs.CollateFailures
import PonziScreen.Proofs.ContractText
import PonziScreen.Proofs.CrossEntropy
import PonziScreen.Proofs.CycleRule
import PonziScreen.Proofs.DeclarationOrder
import PonziScreen.Proofs.Declarations
import PonziScreen.Proofs.EntryOrder
import PonziScreen.Proofs.FeatureBounds
import PonziScreen.Proofs.FeatureGraph
import PonziScreen.Proofs.FirstTransfer
import PonziScreen.Proofs.Isomorphism
import PonziScreen.Proofs.LayerEquations
import PonziScreen.Proofs.LedgerRule
import PonziScreen.Proofs.Lifetime
import PonziScreen.Proofs.LossRange
import PonziScreen.Proofs.MissingLabels
import PonziScreen.Proofs.NormTraining
import PonziScreen.Proofs.Padding
import PonziScreen.Proofs.ParameterNames
import PonziScreen.Proofs.ParameterTable
import PonziScreen.Proofs.ReadOnly
import PonziScreen.Proofs.Rebatching
import PonziScreen.Proofs.RefusedSteps
import PonziScreen.Proofs.ReportOrder
import PonziScreen.Proofs.Room
import PonziScreen.Proofs.ScoreOrder
import PonziScreen.Proofs.Unbatching
import PonziScreen.Proofs.Upstream
import PonziScreen.Proofs.UsageTables
import PonziScreen.Proofs.Votes
import PonziScreen.Proofs.WeightedVote
import PonziScreen.Screening
import PonziScreen.Verdict.Format
import PonziScreen.Verdict.Report
