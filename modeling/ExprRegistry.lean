import ExprRegistry.Expr.Display
import ExprRegistry.Main
import ExprRegistry.Proofs.Resolve.Failure
import ExprRegistry.Proofs.Resolve.Agreement
import ExprRegistry.Proofs.Resolve.FirstFailure
import ExprRegistry.Proofs.Resolve.Requirements
import ExprRegistry.Proofs.Expr.Name
import ExprRegistry.Proofs.Expr.Reading
import ExprRegistry.Proofs.Expr.Grammar
import ExprRegistry.Proofs.Expr.RoundTrip
import ExprRegistry.Proofs.Json.Rearranged
import ExprRegistry.Proofs.Data.Marked
import ExprRegistry.Proofs.Expr.Path
import ExprRegistry.Proofs.Expr.Refusal
import ExprRegistry.Proofs.Expr.Positions
import ExprRegistry.Proofs.Expr.Trimmed
import ExprRegistry.Proofs.Expr.Composition
import ExprRegistry.Proofs.Store.Text
import ExprRegistry.Proofs.Store.Effect
import ExprRegistry.Proofs.Store.Sound
import ExprRegistry.Proofs.Store.Locality
import ExprRegistry.Proofs.Store.Reachable
import ExprRegistry.Proofs.Store.Loading
import ExprRegistry.Proofs.Store.Export
import ExprRegistry.Proofs.Store.Uniqueness
import ExprRegistry.Proofs.Json.TextKeyed
import ExprRegistry.Proofs.Resolve.Resemblance
import ExprRegistry.Proofs.Store.Leniency
import ExprRegistry.Proofs.Text.Quoted
import ExprRegistry.Proofs.Http.Key
import ExprRegistry.Proofs.Http.Retry
import ExprRegistry.Proofs.Http.Cache
import ExprRegistry.Proofs.Decimal.Power
import ExprRegistry.Proofs.Http.Attempts
import ExprRegistry.Proofs.Http.Percent
import ExprRegistry.Proofs.Text.Cut
import ExprRegistry.Proofs.Http.Url
import ExprRegistry.Proofs.Http.Lookup
import ExprRegistry.Proofs.Resolve.Outcome
import ExprRegistry.Proofs.Resolve.Descent
import ExprRegistry.Proofs.Resolve.Termination
import ExprRegistry.Proofs.Http.Mirror
import ExprRegistry.Proofs.Log.Redact
import ExprRegistry.Proofs.Http.Disguise
import ExprRegistry.Proofs.Http.Secrecy
import ExprRegistry.Proofs.Log.Credential
import ExprRegistry.Proofs.Http.Separation
import ExprRegistry.Proofs.Http.Segment
import ExprRegistry.Proofs.Text.Lowercase
import ExprRegistry.Proofs.Http.Joined
import ExprRegistry.Proofs.Http.Location
import ExprRegistry.Proofs.Settings.Config
import ExprRegistry.Proofs.Settings.Override
import ExprRegistry.Proofs.Json.Numeral
import ExprRegistry.Proofs.Json.Regular
import ExprRegistry.Proofs.Decimal.Shortest
import ExprRegistry.Proofs.Decimal.Notation
import ExprRegistry.Proofs.Json.Written
import ExprRegistry.Proofs.Json.Canonical
import ExprRegistry.Proofs.Store.Formed
import ExprRegistry.Proofs.Store.Flaw
import ExprRegistry.Proofs.Expr.Shown
import ExprRegistry.Proofs.Expr.Notation
import ExprRegistry.Proofs.Store.Verdict
import ExprRegistry.Proofs.Version.Strict
import ExprRegistry.Proofs.Version.Asking
import ExprRegistry.Proofs.Version.Spelling
import ExprRegistry.Proofs.Version.Comparison
import ExprRegistry.Proofs.Version.Compatible
import ExprRegistry.Proofs.Version.Chosen
import ExprRegistry.Proofs.Store.Usable
import ExprRegistry.Proofs.Resolve.Worded
import ExprRegistry.Proofs.Resolve.Branches
import ExprRegistry.Proofs.Cli.Files
import ExprRegistry.Proofs.Cli.Output
import ExprRegistry.Proofs.Cli.ExitCode
