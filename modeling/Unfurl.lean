import Unfurl.Command.Run
import Unfurl.Definitions.Starting
import Unfurl.Document.Decode
import Unfurl.Document.Encode
import Unfurl.Environment
import Unfurl.Main
import Unfurl.Mismatch
import Unfurl.Proofs.Command.Ending
import Unfurl.Proofs.Definitions.Loading
import Unfurl.Proofs.Document.Canonical
import Unfurl.Proofs.Document.Sameness
import Unfurl.Proofs.Document.Text
import Unfurl.Proofs.Environment.Updates
import Unfurl.Proofs.Eval.Adequacy
import Unfurl.Proofs.Eval.Bounds
import Unfurl.Proofs.Eval.Course
import Unfurl.Proofs.Eval.Limit
import Unfurl.Proofs.Identity.History
import Unfurl.Proofs.Identity.Outcome
import Unfurl.Proofs.Integer.Exact
import Unfurl.Proofs.Prelude.Bindings
import Unfurl.Proofs.Prelude.Combinators
import Unfurl.Proofs.Prelude.Comparison
import Unfurl.Proofs.Recursion.Fix
import Unfurl.Proofs.Scope.Lexical
import Unfurl.Proofs.Scope.Starting
import Unfurl.Proofs.Scope.Substitution
import Unfurl.Proofs.Select.Pruning
import Unfurl.Proofs.Session.Refinement
import Unfurl.Proofs.Term.Colour
import Unfurl.Proofs.Term.Display
import Unfurl.Proofs.Term.Equality
import Unfurl.Proofs.Term.Outline
import Unfurl.Session
import Unfurl.Settings
import Unfurl.Term.Outline
