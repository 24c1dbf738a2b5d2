import ViewMarkup.Proofs.Session.Dependencies
import ViewMarkup.Proofs.Session.Staleness
import ViewMarkup.Proofs.Source.Faithfulness
import ViewMarkup.Proofs.View.Edits
import ViewMarkup.Session.Polling
import ViewMarkup.Source.Build
import ViewMarkup.Proofs.View.Targets
import ViewMarkup.Proofs.Session.Failures
import ViewMarkup.Proofs.Session.Loading
import ViewMarkup.Proofs.Session.Watching
import ViewMarkup.Proofs.Constraint.Parsing
import ViewMarkup.Proofs.View.Reserve
import ViewMarkup.Proofs.Session.Providing
import ViewMarkup.Proofs.View.Repeating
import ViewMarkup.Proofs.Session.Sheets
import ViewMarkup.Proofs.Session.Bookkeeping
import ViewMarkup.Proofs.View.Depth
import ViewMarkup.Proofs.Source.Setters
import ViewMarkup.Proofs.Naming
import ViewMarkup.Proofs.Style.Cascading
import ViewMarkup.Proofs.Session.Refusals
import ViewMarkup.Proofs.Session.Renewal
import ViewMarkup.Proofs.Document.Paths
import ViewMarkup.Proofs.Xml.Building
import ViewMarkup.Proofs.Document.Duplicates
import ViewMarkup.Proofs.Document.Shape
import ViewMarkup.Proofs.Source.Capturing
import ViewMarkup.Proofs.Source.Blocks
import ViewMarkup.Proofs.View.Commuting
import ViewMarkup.Proofs.Source.Identifiers
import ViewMarkup.Proofs.Source.Outline
import ViewMarkup.Proofs.Source.Locals
import ViewMarkup.Proofs.Source.Scoping
import ViewMarkup.Proofs.Session.Searching
import ViewMarkup.Proofs.View.Sparing
import ViewMarkup.Proofs.View.Kinds
import ViewMarkup.Proofs.Session.Origins
import ViewMarkup.Proofs.View.Captures
import ViewMarkup.Proofs.Style.Extending
import ViewMarkup.Proofs.Session.Rediscovering
import ViewMarkup.Proofs.Session.Instantiating
import ViewMarkup.Proofs.View.Effects
import ViewMarkup.Proofs.View.Tables
import ViewMarkup.Proofs.View.Traversal
import ViewMarkup.Proofs.Session.Reaching
import ViewMarkup.Proofs.Session.Numbering
import ViewMarkup.Proofs.Session.Storing
import ViewMarkup.Proofs.Document.Order
import ViewMarkup.Proofs.Constraint.Longest
import ViewMarkup.Proofs.Constraint.Joining
import ViewMarkup.Proofs.Constraint.Shorthands
import ViewMarkup.Proofs.Value.RoundTrip
