import PpcLab.Interpreter.PreciseStops
import PpcLab.Interpreter.Faithful
import PpcLab.Interpreter.RecordedBits
import PpcLab.Interpreter.LinkRegister
import PpcLab.Loader.MachORelocation
import PpcLab.Loader.SectionLayout
import PpcLab.Loader.PefRepeat
import PpcLab.Loader.PefIntake
import PpcLab.Loader.PublishedSymbols
import PpcLab.Loader.PefRebase
import PpcLab.Scheduler.Budget
import PpcLab.Scheduler.FairShare
import PpcLab.Control.History
import PpcLab.Control.DefaultIds
import PpcLab.Control.Recovery
import PpcLab.Triage.Localization
import PpcLab.Triage.TraceRoundTrip
import PpcLab.Api.Connection
import PpcLab.Replication.Verification
import PpcLab.Replication.HistoryRoundTrip
import PpcLab.Replication.Generations
import PpcLab.Replication.ImportFailure
import PpcLab.Explore.Closure
import PpcLab.Explore.Fingerprint
import PpcLab.Explore.StaleCases
import PpcLab.Corpus.Baselines
import PpcLab.Corpus.Minimization
import PpcLab.Loader.PatternData
import PpcLab.Security.Interleavings
import PpcLab.Observe.Health
import PpcLab.Release.Collisions
import PpcLab.Release.Exactness
import PpcLab.Target.Repacking
import PpcLab.Platform.Migration
import PpcLab.Backup.RestoreFailure
import PpcLab.Integrity.Bundles
import PpcLab.Upgrade.OnlySource
import PpcLab.Tool.JsonEscape
import PpcLab.Tool.Truncation
import PpcLab.Trace.Conservation
import PpcLab.Knowledge.ShortestPath
