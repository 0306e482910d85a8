import Backtrack.File.Surroundings
import Backtrack.Grammar.Derived
import Backtrack.Grammar.Expression
import Backtrack.Iterator.Session
import Backtrack.Main
import Backtrack.Proofs.CommandLine.Arguments
import Backtrack.Proofs.CommandLine.Outcome
import Backtrack.Proofs.CommandLine.SourceFile
import Backtrack.Proofs.Expr.Evaluation
import Backtrack.Proofs.Expr.Inspection
import Backtrack.Proofs.Expr.Joining
import Backtrack.Proofs.Expr.LeftRecursion
import Backtrack.Proofs.Expr.Nesting
import Backtrack.Proofs.Expr.Occurrence
import Backtrack.Proofs.Expr.Printing
import Backtrack.Proofs.Expr.Renaming
import Backtrack.Proofs.Expr.Spine
import Backtrack.Proofs.Expr.Substitution
import Backtrack.Proofs.Grammar.Alternatives
import Backtrack.Proofs.Grammar.Bracketing
import Backtrack.Proofs.Grammar.Expression
import Backtrack.Proofs.Grammar.Laziness
import Backtrack.Proofs.Grammar.LeftChain
import Backtrack.Proofs.Grammar.LeftFold
import Backtrack.Proofs.Grammar.Locality
import Backtrack.Proofs.Grammar.Nullable
import Backtrack.Proofs.Grammar.Sequencing
import Backtrack.Proofs.Grammar.Termination
import Backtrack.Proofs.Iterator.Session
import Backtrack.Proofs.Parser.Alternatives
import Backtrack.Proofs.Parser.LeftChain
import Backtrack.Proofs.Parser.Locality
import Backtrack.Proofs.Parser.Settling
import Backtrack.Proofs.Parser.Unrolling
import Backtrack.Proofs.Report.Calls
import Backtrack.Proofs.Report.Outcome
import Backtrack.Proofs.Report.Printing
import Backtrack.Proofs.Report.Reading
import Backtrack.Proofs.Report.Underline
import Backtrack.Proofs.Token.Joining
import Backtrack.Proofs.Token.Spelling
import Backtrack.Report.Argument
import Backtrack.Value.Member
