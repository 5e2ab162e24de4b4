import SyntaxPaint.Config
import SyntaxPaint.Engine.Lexical
import SyntaxPaint.Environment
import SyntaxPaint.Json.Reader
import SyntaxPaint.Main
import SyntaxPaint.Session.History
import SyntaxPaint.Proofs.Run.Merging
import SyntaxPaint.Proofs.Run.Lookup
import SyntaxPaint.Proofs.Buffer.Overlay
import SyntaxPaint.Proofs.Run.Maximal
import SyntaxPaint.Proofs.Buffer.RunMap
import SyntaxPaint.Proofs.Markup.Coverage
import SyntaxPaint.Proofs.Markup.Forms
import SyntaxPaint.Proofs.Markup.RoundTrip
import SyntaxPaint.Proofs.Session.Turns
import SyntaxPaint.Proofs.Buffer.Painting
import SyntaxPaint.Proofs.Session.Freshness
import SyntaxPaint.Proofs.Session.Accounting
import SyntaxPaint.Proofs.Theme.Cascade
import SyntaxPaint.Proofs.Session.Currency
import SyntaxPaint.Proofs.Session.Repainting
import SyntaxPaint.Proofs.Session.Incremental
import SyntaxPaint.Proofs.Buffer.Splicing
import SyntaxPaint.Proofs.Buffer.Layers
import SyntaxPaint.Proofs.Session.Repetition
import SyntaxPaint.Proofs.Theme.Choices
import SyntaxPaint.Proofs.Markup.Replacing
import SyntaxPaint.Proofs.Markup.Malformed
import SyntaxPaint.Proofs.Session.Discipline
import SyntaxPaint.Proofs.Session.Following
import SyntaxPaint.Proofs.Theme.Light
import SyntaxPaint.Proofs.Session.Breakdown
import SyntaxPaint.Proofs.Stylesheet.Blocks
import SyntaxPaint.Proofs.Terminal.Showing
import SyntaxPaint.Proofs.Theme.Listing
import SyntaxPaint.Proofs.CommandLine.Settings
import SyntaxPaint.Proofs.Grammar.Selecting
