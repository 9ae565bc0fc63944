import Milestone.Main
import Milestone.Proofs.Checklist.Declared
import Milestone.Proofs.Command.Edits
import Milestone.Proofs.Debounce.Independence
import Milestone.Proofs.Files.Kept
import Milestone.Proofs.Run.Earned
import Milestone.Proofs.Run.Marks
import Milestone.Proofs.Run.Reversal
import Milestone.Proofs.Saved.CustomValue
import Milestone.Proofs.Saved.StateFile
import Milestone.Proofs.Schema.Passes
import Milestone.Proofs.Session.Restart
import Milestone.Proofs.Session.Switch
import Milestone.Proofs.Settings.Demands
import Milestone.Proofs.Snapshot.Flags
import Milestone.Proofs.Snapshot.Lifetime
import Milestone.Proofs.Snapshot.Sources
import Milestone.Proofs.Template.Rejection
import Milestone.Proofs.Template.Unnamed
import Milestone.Proofs.Tick.Agree
import Milestone.Proofs.Tick.Leading
import Milestone.Proofs.Tick.Monotone
import Milestone.Proofs.Tick.Repeat
import Milestone.Proofs.Tick.Skipped
import Milestone.Proofs.Tick.Targets
import Milestone.Proofs.Version.Grammar
