import Peg.Catalogue
import Peg.Engine.Eval
import Peg.Expr.Ascii
import Peg.Heredoc
import Peg.Json.Decode
import Peg.Proofs.Stack.Undo
import Peg.Proofs.Stack.Copies
import Peg.Proofs.Action.Laws
import Peg.Proofs.Eval.Fuel
import Peg.Proofs.Machine.Realization
import Peg.Proofs.Machine.Agreement
import Peg.Proofs.Eval.Hereditary
import Peg.Proofs.Eval.Transactions
import Peg.Proofs.Natural.Positions
import Peg.Proofs.Natural.Patterns
import Peg.Proofs.Action.Conditions
import Peg.Proofs.Natural.Rules
import Peg.Proofs.Natural.Adequacy
import Peg.Proofs.Eval.Muting
import Peg.Proofs.Tracker.Parts
import Peg.Proofs.Tracker.Summary
import Peg.Proofs.Tracker.History
import Peg.Proofs.Eval.Tracking
import Peg.Proofs.Machine.Endings
import Peg.Proofs.Eval.Separation
import Peg.Proofs.Machine.Unwinding
import Peg.Proofs.Tree.Validity
import Peg.Proofs.Tree.Spelling
import Peg.Proofs.Machine.Blindness
import Peg.Proofs.Grammar.Termination
import Peg.Proofs.Parse.Independence
import Peg.Proofs.Parse.Completion
import Peg.Proofs.Coupling.References
import Peg.Proofs.Coupling.RuleKinds
import Peg.Proofs.Coupling.Translation
import Peg.Proofs.Json.Acceptance
import Peg.Proofs.Json.Loading
import Peg.Proofs.Catalogue.Ownership
import Peg.Proofs.Parse.Limits
import Peg.Proofs.Equivalence.Rewriting
import Peg.Proofs.Json.ErrorOffset
import Peg.Proofs.Json.AsciiEncoding
import Peg.Proofs.Repetition.Attempts
import Peg.Proofs.Heredoc.Rendering
import Peg.Proofs.Ignored.Stackless
import Peg.Proofs.Ignored.Skipping
import Peg.Proofs.Ignored.FailingSkippers
import Peg.Proofs.Terminal.Backreferences
import Peg.Proofs.Terminal.Delimiters
import Peg.Proofs.Terminal.LetterCase
import Peg.Proofs.Text.Lines
import Peg.Proofs.Catalogue.Starts
import Peg.Proofs.Trace.OpenRules
import Peg.Proofs.Parse.Expectations
import Peg.Proofs.Tree.Occurrences
import Peg.Proofs.Parse.Nesting
