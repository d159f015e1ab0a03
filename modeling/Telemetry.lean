import Telemetry.Main
import Telemetry.Proofs.Accounting
import Telemetry.Proofs.Arrival
import Telemetry.Proofs.Closings
import Telemetry.Proofs.Counting
import Telemetry.Proofs.DailyTimes
import Telemetry.Proofs.Exporting
import Telemetry.Proofs.Folding
import Telemetry.Proofs.Handover
import Telemetry.Proofs.Intake
import Telemetry.Proofs.Isolation
import Telemetry.Proofs.Keeping
import Telemetry.Proofs.KeyedWrites
import Telemetry.Proofs.LifeCycle
import Telemetry.Proofs.Observers
import Telemetry.Proofs.Overlaps
import Telemetry.Proofs.Reading
import Telemetry.Proofs.Retention
import Telemetry.Proofs.Rollback
import Telemetry.Proofs.Shifts
import Telemetry.Proofs.StateTimes
import Telemetry.Proofs.Transparency
import Telemetry.Proofs.Upgrades
import Telemetry.Proofs.Values
