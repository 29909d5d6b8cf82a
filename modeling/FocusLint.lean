import FocusLint.Main
import FocusLint.Proofs.FixIteration
import FocusLint.Proofs.Detection
import FocusLint.Proofs.DocumentOrder
import FocusLint.Proofs.FocusRemoval
import FocusLint.Proofs.BlamedProperty
import FocusLint.Proofs.Comments
import FocusLint.Proofs.DiagnosticPositions
import FocusLint.Proofs.Walks
import FocusLint.Proofs.RunEffects
import FocusLint.Proofs.FreshCheck
import FocusLint.Proofs.Targets
import FocusLint.Proofs.OptionTexts
import FocusLint.Proofs.ReportReading
import FocusLint.Proofs.UnremovedModifiers
import FocusLint.Proofs.Dispatch
import FocusLint.Proofs.LineLookup
import FocusLint.Proofs.MissingNodes
import FocusLint.Proofs.Parentheses
import FocusLint.Proofs.ModifierChains
import FocusLint.Proofs.PositionOrder
import FocusLint.Proofs.SpanSets
import FocusLint.Proofs.OptionSets
import FocusLint.Proofs.LocalEdits
import FocusLint.Proofs.EditHistory
import FocusLint.Proofs.TargetExpansion
import FocusLint.Proofs.RootRuns
import FocusLint.Proofs.OptionLoading
import FocusLint.Proofs.RepositoryRoots
import FocusLint.Proofs.ColoredReports
