import Supervisor.Diagnostic
import Supervisor.Report.Reader
import Supervisor.Script
import Supervisor.Settings.File
import Supervisor.Proofs.Course.Basic
import Supervisor.Proofs.Course.Life
import Supervisor.Proofs.Wire.Stream
import Supervisor.Proofs.Ping.Onward
import Supervisor.Proofs.Course.Run
import Supervisor.Proofs.Termination
import Supervisor.Proofs.Ping.Standing
import Supervisor.Proofs.Ping.VerifyAlive
import Supervisor.Proofs.Sweep.Condemnation
import Supervisor.Proofs.Wire.Grammar
import Supervisor.Proofs.Flight.Successor
import Supervisor.Proofs.Sweep.Routing
import Supervisor.Proofs.Sweep.Outcome
import Supervisor.Proofs.Staging.Slot
import Supervisor.Proofs.Staging.Delivery
import Supervisor.Proofs.Staging.Aside
import Supervisor.Proofs.Journal.Account
import Supervisor.Proofs.Journal.Turn
import Supervisor.Proofs.Pool.Ledger
import Supervisor.Proofs.Pool.Allocation
import Supervisor.Proofs.Journal.FirstTermination
import Supervisor.Proofs.Journal.Signals
import Supervisor.Proofs.Shutdown.Scan
import Supervisor.Proofs.Shutdown.Once
import Supervisor.Proofs.Ping.Overtaken
import Supervisor.Proofs.Ping.Correlation
import Supervisor.Proofs.Clients.Slots
import Supervisor.Proofs.Clients.Change
import Supervisor.Proofs.Clients.Tenure
import Supervisor.Proofs.Recycling.Abreast
import Supervisor.Proofs.Journal.Forward
import Supervisor.Proofs.Sweep.Preemption
import Supervisor.Proofs.Speech.Hushed
import Supervisor.Proofs.Speech.Calls
import Supervisor.Proofs.Speech.Reading
import Supervisor.Proofs.Speech.Hearing
import Supervisor.Proofs.Clients.Move
import Supervisor.Proofs.Clients.Load
import Supervisor.Proofs.Shutdown.Round
import Supervisor.Proofs.Speech.Sendings
import Supervisor.Proofs.Staging.Filling
import Supervisor.Proofs.Staging.Supersession
import Supervisor.Proofs.Number.Numeral
import Supervisor.Proofs.Number.Rounding
import Supervisor.Proofs.Number.Nearest
import Supervisor.Proofs.Number.Decimal
import Supervisor.Proofs.Number.Significand
import Supervisor.Proofs.Number.Seconds
import Supervisor.Proofs.Number.Shortest
import Supervisor.Proofs.Text.Blank
import Supervisor.Proofs.Text.Bytes
import Supervisor.Proofs.Text.Clip
import Supervisor.Proofs.Worker.Names
import Supervisor.Proofs.Worker.Tuning
import Supervisor.Proofs.Settings.Grammar
import Supervisor.Proofs.Settings.Values
import Supervisor.Proofs.Settings.Lines
import Supervisor.Proofs.Settings.Precedence
import Supervisor.Proofs.Settings.Spelling
import Supervisor.Proofs.Settings.Timeout
import Supervisor.Proofs.Journal.Inscription
import Supervisor.Proofs.Pool.Tags
import Supervisor.Proofs.Json.Tokens
import Supervisor.Proofs.Json.RoundTrip
import Supervisor.Proofs.Json.Singles
import Supervisor.Proofs.Calendar.RoundTrip
import Supervisor.Proofs.Report.Fields
import Supervisor.Proofs.Report.RoundTrip
import Supervisor.Proofs.Report.Readable
