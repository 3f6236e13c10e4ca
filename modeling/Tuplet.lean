import Tuplet.Main
import Tuplet.Proofs.AcceptedRuns
import Tuplet.Proofs.BuilderInvariant
import Tuplet.Proofs.DeclarationAgreement
import Tuplet.Proofs.DirectRecursion
import Tuplet.Proofs.FirstOffence
import Tuplet.Proofs.MeaningPreserved
import Tuplet.Proofs.Reporting
import Tuplet.Proofs.Termination
import Tuplet.Proofs.Undisturbed
import Tuplet.Token.Cursor
import Tuplet.Proofs.Isolation
import Tuplet.Proofs.DefinitionOrder
import Tuplet.Proofs.LexicalRules
import Tuplet.Proofs.Scanning
import Tuplet.Proofs.ReadingBack
import Tuplet.Proofs.Grouping
import Tuplet.Proofs.Layout
import Tuplet.Proofs.EndPosition
import Tuplet.Proofs.StackSlots
import Tuplet.Proofs.CallChains
import Tuplet.Proofs.ScopeRestored
import Tuplet.Proofs.SourceTrees
import Tuplet.Proofs.FailureCauses
import Tuplet.Proofs.BuilderUse
import Tuplet.Proofs.ParsedTrees
import Tuplet.Proofs.SumsOfProducts
import Tuplet.Proofs.FaithfulOutline
import Tuplet.Proofs.FaithfulListing
import Tuplet.Proofs.ScopeHistory
import Tuplet.Proofs.Progress
import Tuplet.Proofs.PrintedSignatures
import Tuplet.Proofs.TypeSearch
import Tuplet.Proofs.TypeQuestions
import Tuplet.Proofs.SearchesEnd
import Tuplet.Proofs.Numerals
