import Featherweight.Expr.Same
import Featherweight.Main
import Featherweight.Parser.Depth
import Featherweight.Proofs.Command.Tasks
import Featherweight.Proofs.Diagnostics
import Featherweight.Proofs.Evaluation.Adequacy
import Featherweight.Proofs.Evaluation.Application
import Featherweight.Proofs.Evaluation.Arithmetic
import Featherweight.Proofs.Evaluation.ClosureKeys
import Featherweight.Proofs.Evaluation.Composition
import Featherweight.Proofs.Evaluation.Concatenation
import Featherweight.Proofs.Evaluation.Division
import Featherweight.Proofs.Evaluation.Equivariance
import Featherweight.Proofs.Evaluation.Footprint
import Featherweight.Proofs.Evaluation.Frames
import Featherweight.Proofs.Evaluation.LatestClosures
import Featherweight.Proofs.Evaluation.Reachable
import Featherweight.Proofs.Evaluation.Renaming
import Featherweight.Proofs.Evaluation.SameClosures
import Featherweight.Proofs.Evaluation.Splicing
import Featherweight.Proofs.Evaluation.Truncation
import Featherweight.Proofs.Parsing.Acceptance
import Featherweight.Proofs.Parsing.CorrectPrefix
import Featherweight.Proofs.Parsing.Layout
import Featherweight.Proofs.Parsing.Locality
import Featherweight.Proofs.Parsing.Prompt
import Featherweight.Proofs.Parsing.Spelling
import Featherweight.Proofs.Printing.Readable
import Featherweight.Proofs.Printing.Scalars
import Featherweight.Proofs.Printing.TokenJson
import Featherweight.Proofs.Scanning.Lines
import Featherweight.Proofs.Scanning.MaximalMunch
import Featherweight.Proofs.Store.Visibility
