import Thicket.Main
import Thicket.Proofs.Answers
import Thicket.Proofs.Assignment
import Thicket.Proofs.DocumentList
import Thicket.Proofs.Doubles
import Thicket.Proofs.Equality
import Thicket.Proofs.ErrorPath
import Thicket.Proofs.Exit
import Thicket.Proofs.FailedImport
import Thicket.Proofs.FieldOrder
import Thicket.Proofs.Grammar
import Thicket.Proofs.ImportGraph
import Thicket.Proofs.ImportOrder
import Thicket.Proofs.Kept
import Thicket.Proofs.LeadingNumber
import Thicket.Proofs.Locality
import Thicket.Proofs.Nesting
import Thicket.Proofs.NumberGrammar
import Thicket.Proofs.NumberPattern
import Thicket.Proofs.Objects
import Thicket.Proofs.Once
import Thicket.Proofs.PathStack
import Thicket.Proofs.PathText
import Thicket.Proofs.Permanence
import Thicket.Proofs.Reading
import Thicket.Proofs.Relevance
import Thicket.Proofs.Resolution
import Thicket.Proofs.RoundTrip
import Thicket.Proofs.ReadBack
import Thicket.Proofs.Rounding
import Thicket.Proofs.Sameness
import Thicket.Proofs.Scopes
import Thicket.Proofs.Settling
import Thicket.Proofs.Shadowed
import Thicket.Proofs.Showing
