import Passage.Rehearsal
import Passage.Status.Revision
import Passage.Proofs.Lifecycle
import Passage.Proofs.Transition.Calls
import Passage.Proofs.Wait.Extension
import Passage.Proofs.Wait.Reordering
import Passage.Proofs.Past
import Passage.Proofs.Transition.Hooks
import Passage.Proofs.Succession
import Passage.Proofs.Status.Wording
import Passage.Proofs.Transition.Warnings
import Passage.Proofs.Transition.Declared
import Passage.Proofs.Transition.Direction
import Passage.Proofs.Transition.Timing
import Passage.Proofs.Transition.Allowance
import Passage.Proofs.Transition.Message
import Passage.Proofs.Wait.News
import Passage.Proofs.Archive
import Passage.Proofs.Wait.Culprit
import Passage.Proofs.Saving
import Passage.Proofs.Configuring
import Passage.Proofs.Wait.Transcript
import Passage.Proofs.Settings
