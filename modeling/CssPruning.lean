import CssPruning.Config.Text
import CssPruning.Font.Inspection
import CssPruning.Pipeline
import CssPruning.Probe.Page
import CssPruning.Sheet.Walk
import CssPruning.Proofs.Sheet.Deletion
import CssPruning.Proofs.Pipeline.Remainder
import CssPruning.Proofs.Font.Names
import CssPruning.Proofs.Font.Usage
import CssPruning.Proofs.Media.KeepBias
import CssPruning.Proofs.Pipeline.UsedFaces
import CssPruning.Proofs.Token.Locality
import CssPruning.Proofs.Token.Places
import CssPruning.Proofs.Token.Grouping
import CssPruning.Proofs.Token.Piece
import CssPruning.Proofs.Sheet.Reading
import CssPruning.Proofs.Sheet.RoundTrip
import CssPruning.Proofs.Sheet.Merging
import CssPruning.Proofs.Media.Absorption
import CssPruning.Proofs.Font.Recleaning
import CssPruning.Proofs.Sheet.Refusal
import CssPruning.Proofs.Sheet.Simple
import CssPruning.Proofs.Pipeline.Probing
import CssPruning.Proofs.Pipeline.RenderedNames
import CssPruning.Proofs.Font.Insertion
import CssPruning.Proofs.Value.Uncommented
import CssPruning.Proofs.Sheet.Values
import CssPruning.Proofs.Pipeline.Passes
import CssPruning.Proofs.Pipeline.ProbeNames
import CssPruning.Proofs.Media.Grammar
import CssPruning.Proofs.Value.Survival
import CssPruning.Proofs.Media.Layout
import CssPruning.Proofs.Media.Printing
import CssPruning.Proofs.Sheet.Faults
import CssPruning.Proofs.Font.LetterCase
import CssPruning.Proofs.Media.LetterCase
import CssPruning.Proofs.Media.Unanswered
import CssPruning.Proofs.Pipeline.QuotedNames
import CssPruning.Proofs.Media.Preludes
import CssPruning.Proofs.Sheet.Progress
import CssPruning.Proofs.Sheet.Walker
import CssPruning.Proofs.Font.Gathering
import CssPruning.Proofs.Pipeline.Accounts
import CssPruning.Proofs.Font.Reasons
import CssPruning.Proofs.Media.Density
import CssPruning.Proofs.Media.Lists
import CssPruning.Proofs.Sheet.Collapsing
import CssPruning.Proofs.Value.Trimming
import CssPruning.Proofs.Font.Blanks
import CssPruning.Proofs.Probe.Page
import CssPruning.Proofs.Value.Important
import CssPruning.Proofs.Sheet.WellFormed
import CssPruning.Proofs.Config.RoundTrip
import CssPruning.Proofs.Pipeline.CustomRules
