import Reckon.Main
import Reckon.Proofs.Acceptance
import Reckon.Proofs.Words
import Reckon.Proofs.Writing
import Reckon.Proofs.Running
import Reckon.Proofs.Places
import Reckon.Proofs.Shift
import Reckon.Proofs.Lines
import Reckon.Proofs.LineByLine
import Reckon.Proofs.Machine
import Reckon.Proofs.Lookahead
import Reckon.Proofs.Blame
import Reckon.Proofs.Tiling
import Reckon.Proofs.Stages
import Reckon.Proofs.Range
import Reckon.Proofs.Tame
import Reckon.Proofs.Samples
import Reckon.Proofs.Corpus
import Reckon.Proofs.Choice
import Reckon.Proofs.Listing
import Reckon.Proofs.Dialogue
import Reckon.Proofs.Nesting
import Reckon.Proofs.LineEnds
import Reckon.Proofs.Dependence
import Reckon.Proofs.Limit
import Reckon.Proofs.Arithmetic
import Reckon.Proofs.AddAssign
import Reckon.Proofs.Preorder
import Reckon.Proofs.Cursor
import Reckon.Proofs.Minimum
import Reckon.Proofs.Growth
import Reckon.Proofs.Numerals
