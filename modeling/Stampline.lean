import Stampline.Evaluation.Program
import Stampline.Main
import Stampline.Proofs.Lowering.Correct
import Stampline.Proofs.Lowering.Layout
import Stampline.Proofs.Syntax.RoundTrip
import Stampline.Proofs.Stamp.Kept
import Stampline.Proofs.Syntax.Accepted
import Stampline.Proofs.Syntax.Places
import Stampline.Proofs.Lowering.Unplaced
import Stampline.Proofs.Stamp.Compiled
import Stampline.Proofs.Syntax.Literals
import Stampline.Proofs.Stamp.Stages
import Stampline.Proofs.Stamp.Runs
import Stampline.Proofs.Lowering.Admitted
import Stampline.Proofs.CommandLine.Sequence
import Stampline.Proofs.Syntax.Lineages
import Stampline.Proofs.Syntax.Recorded
import Stampline.Proofs.Syntax.Spans
import Stampline.Proofs.Stamp.Exact
import Stampline.Proofs.Token.Tiles
import Stampline.Proofs.Syntax.Padded
import Stampline.Proofs.Lowering.Globals
import Stampline.Proofs.Syntax.Bounds
import Stampline.Proofs.Syntax.Parentheses
import Stampline.Proofs.Syntax.Sights
import Stampline.Proofs.Stamp.Writable
import Stampline.Proofs.Files.Sources
import Stampline.Proofs.Lowering.Interned
