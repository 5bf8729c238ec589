import Carcer.Seed.FileMap
import Carcer.Build.EmbeddedSources
import Carcer.Build.Capture
import Carcer.Guest.StartupReads
import Carcer.Guest.DispatcherQueue
import Carcer.Guest.DispatcherServices
import Carcer.Guest.DispatcherExchange
import Carcer.Seed.ProtocolLoop
import Carcer.Build.HostServices
import Carcer.Experiment.OperatorFeedback
import Carcer.Agent.DynamicCallRuns
import Carcer.Store.LedgerInheritance
import Carcer.Store.FeatureRuns
import Carcer.Store.CrashPoints
import Carcer.Experiment.RuntimeStarts
import Carcer.Experiment.RuntimeReopen
import Carcer.Tui.Markdown
import Carcer.Build.Diagnostics
import Carcer.Build.Materialize
import Carcer.Provenance.AsciiJson
import Carcer.Experiment.PlanningTurns
import Carcer.Provenance.ReviewEvidence
import Carcer.Experiment.RequestLineage
import Carcer.Experiment.Admission
import Carcer.Agent.OperatorRequestTurns
import Carcer.Tui.Confirmation
import Carcer.Bootstrap.StrictJson
import Carcer.Qemu.Hardware
import Carcer.Store.ProvidedAssets
import Carcer.Experiment.FileNames
