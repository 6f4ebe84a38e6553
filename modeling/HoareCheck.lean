import HoareCheck.Measure.Report
import HoareCheck.Measure.ValueFormat
import HoareCheck.Package
import HoareCheck.Proofs.Adjacency
import HoareCheck.Proofs.Aliasing
import HoareCheck.Proofs.AssignedNames
import HoareCheck.Proofs.ClaimReading
import HoareCheck.Proofs.ForkedNames
import HoareCheck.Proofs.InvariantAvailability
import HoareCheck.Proofs.LexicalScope
import HoareCheck.Proofs.LiteralFolding
import HoareCheck.Proofs.NameRetention
import HoareCheck.Proofs.SelfComposition
import HoareCheck.Proofs.TargetOrder
import HoareCheck.Proofs.TypingCompleteness
import HoareCheck.Proofs.TypingFixpoint
import HoareCheck.Proofs.WeakestPrecondition
import HoareCheck.Proofs.WriteOrder
import HoareCheck.Sample.Verifications
