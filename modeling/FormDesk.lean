import FormDesk.Main
import FormDesk.Proofs.Alternating
import FormDesk.Proofs.Bookmarks
import FormDesk.Proofs.Committing
import FormDesk.Proofs.Counting
import FormDesk.Proofs.Custody
import FormDesk.Proofs.Dirtying
import FormDesk.Proofs.Holding
import FormDesk.Proofs.Indenting
import FormDesk.Proofs.Inlining
import FormDesk.Proofs.Installing
import FormDesk.Proofs.Ledger
import FormDesk.Proofs.Leftover
import FormDesk.Proofs.Linking
import FormDesk.Proofs.Meaning
import FormDesk.Proofs.Nesting
import FormDesk.Proofs.Rebuilding
import FormDesk.Proofs.Remembering
import FormDesk.Proofs.Reopening
import FormDesk.Proofs.Replay
import FormDesk.Proofs.Reverting
import FormDesk.Proofs.Selecting
import FormDesk.Proofs.Skipping
import FormDesk.Proofs.Undoing
import FormDesk.Proofs.Unwinding
import FormDesk.Proofs.Views
import FormDesk.Scenario.Run
import FormDesk.Text.Region
