/-!
# Usage texts

What the program prints about itself.
-/

namespace Milestone.Command

/-- The name and version of the program. -/
def versionText : String := "waypost-monitor 0.1.0\n"

/-- How the program is called. -/
def helpText : String :=
  String.join [
    "Usage: waypost-monitor <COMMAND>\n",
    "\n",
    "Commands:\n",
    "  status    Run one reconciliation tick and print the summary\n",
    "  run       Start the tracker\n",
    "  override  Set or clear a manual statistic override\n",
    "  custom    Record progress for a custom goal: true, false or a count\n",
    "  reset     Clear overrides, custom progress and the legacy baseline\n",
    "  help      Print this message\n"]

end Milestone.Command
