import ClosingLabels.Proofs.Editing
import ClosingLabels.Proofs.Forgetting
import ClosingLabels.Proofs.Matching
import ClosingLabels.Proofs.Redrawing
import ClosingLabels.Proofs.Staleness
import ClosingLabels.Scenario.Catalog
import ClosingLabels.Scenario.Display
import ClosingLabels.Scenario.Forest
import ClosingLabels.Scenario.Overlay
import ClosingLabels.Scenario.Patterns
import ClosingLabels.Scenario.Settings
import ClosingLabels.Scenario.Switchboard
import ClosingLabels.Session
import ClosingLabels.Proofs.Drawing
import ClosingLabels.Proofs.Wiring
import ClosingLabels.Proofs.Switching
import ClosingLabels.Proofs.Marks
import ClosingLabels.Proofs.Renewal
import ClosingLabels.Proofs.Circumstances
import ClosingLabels.Proofs.Independence
import ClosingLabels.Proofs.Decorating
import ClosingLabels.Proofs.Upkeep
import ClosingLabels.Proofs.Closing
import ClosingLabels.Proofs.Vouching
import ClosingLabels.Proofs.Recomputing
import ClosingLabels.Proofs.Rooting
import ClosingLabels.Proofs.Freshness
import ClosingLabels.Proofs.Currency
import ClosingLabels.Proofs.Attending
import ClosingLabels.Proofs.UpToDate
import ClosingLabels.Proofs.Painting
import ClosingLabels.Proofs.Showing
import ClosingLabels.Proofs.Escaping
import ClosingLabels.Proofs.Teardown
import ClosingLabels.Proofs.Listing
import ClosingLabels.Proofs.Exhibit
import ClosingLabels.Proofs.Spelling
import ClosingLabels.Proofs.Reading
import ClosingLabels.Proofs.Restoring
import ClosingLabels.Proofs.Saving
import ClosingLabels.Proofs.Abiding
import ClosingLabels.Proofs.Fixtures
import ClosingLabels.Proofs.Deactivation
import ClosingLabels.Proofs.Lines
import ClosingLabels.Proofs.Splicing
import ClosingLabels.Proofs.Extracting
import ClosingLabels.Proofs.Innermost
import ClosingLabels.Proofs.Milestones
import ClosingLabels.Proofs.Succession
import ClosingLabels.Proofs.Confinement
import ClosingLabels.Proofs.Isolation
import ClosingLabels.Proofs.Fetching
import ClosingLabels.Proofs.Tallies
import ClosingLabels.Proofs.Absence
import ClosingLabels.Proofs.Phrasing
import ClosingLabels.Proofs.Reloading
import ClosingLabels.Proofs.Delivering
import ClosingLabels.Proofs.Remembering
import ClosingLabels.Proofs.Placing
