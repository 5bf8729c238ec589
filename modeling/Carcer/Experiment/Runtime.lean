import Carcer.Build.HostServices
import Carcer.Experiment.History
import Carcer.Experiment.OperatorFeedback
import Carcer.Provenance.HarnessStore

/-!
# The runtime of a run

The state machine of `internal/experiment`: `runtime.go`, `live_lifecycle.go`, and the parts of
`live.go`, `source_capacity.go`, `bootstrap.go` and `abort_reason.go` that decide about
generations. A generation is started, ends by a cooperative finish or an abort, and leaves an
archive; the next one is started from the gate, as the successor of the last one or from an earlier
archive. The object of the runtime may be closed at any time, and another one reopens the run at the
gate, possibly in another harness.

Live operations hold `operationMu` from end to end. `ContinueGeneration` and `ForkFromGeneration`
give up `gateMu` while the guest boots, so that they are two steps here, and the lease of an exit
interview may be asked for in between. What happens outside of the runtime (whether the guest boots
and stops, whether the successor image is there) is part of a step. Archives are taken as the values
that are written; `readArchivedGeneration` checks again what it reads.

## Main definitions

* `ArchivedGeneration`, `loadArchivedGenerations`, `publishArchive`: archives
* `validateOperatorFeedbackRecords`, `attachOperatorFeedback`: abort reasons
* `CodexOSRun`, `RunDirectory`, `Run`: the state in memory and on disk
* `Operation`, `perform`, `performAll`: the operations and their runs
-/

namespace Carcer.Experiment

open Carcer.Wire Carcer.Disk Carcer.Guest Carcer.Provenance

/-! ### Archives -/

def archiveHandoffLimit : ℕ := 16 * 1024

def archiveHarnessIdentityLimit : ℕ := 256 * 1024

/-- What an archive holds of what the runtime looks at. -/
structure ArchivedGeneration where
  metadata : ArchiveMetadata
  /-- The message and the snapshot of a completed generation. -/
  handoff : Option Bytes
  sourceSnapshot : Option Bytes
  /-- The reason of an aborted one. -/
  abortReason : Option Bytes
  sourceCapacity : Budget
  harnessIdentity : Option HarnessIdentity
  deriving DecidableEq

/-- What `ArchivedGeneration` calls its generation. -/
def ArchivedGeneration.generation (archive : ArchivedGeneration) : UInt64 :=
  archive.metadata.generation

/-- What makes an archive unreadable. -/
inductive ArchiveError
  | capacity
  | metadata
  | identity
  /-- "generation handoff is not valid UTF-8" -/
  | handoff
  | snapshot
  /-- "generation abort reason is malformed" -/
  | reason
  deriving DecidableEq

/-- The errors of the runtime. -/
inductive RuntimeError
  /-- "CodexOS run is closed" -/
  | closed
  /-- "CodexOS run is not stopped" -/
  | notStopped
  /-- "CodexOS run has already been started" -/
  | alreadyStarted
  /-- "CodexOS run has already been opened" -/
  | alreadyOpened
  /-- "CodexOS run has no live runtime configuration" -/
  | noLiveRun
  /-- "run has no archived generation gate" -/
  | noArchives
  /-- "initial ISO is unavailable: %s", "selected successor artifact is missing: %s" and
  "generation archive artifact is missing: %s" -/
  | imageMissing
  /-- What `bootLiveGeneration` says. -/
  | boot
  /-- What `configureLiveAssets` says. -/
  | assets
  /-- "CodexOS generation transition is already active" -/
  | transitioning
  /-- "completed generation is retained for an exit interview" -/
  | retained
  /-- "CodexOS run is not awaiting a generation" -/
  | notAwaiting
  /-- "CodexOS run has no selected successor" -/
  | noSuccessor
  /-- "CodexOS generation number is unavailable" -/
  | noGeneration
  /-- "generation number space is exhausted" -/
  | exhausted
  /-- "fork parent must be an earlier generation" -/
  | forkParent
  /-- "generation archive is missing: %s" -/
  | archiveMissing
  /-- "aborted generation cannot be a rollback parent" -/
  | abortedParent
  /-- "CodexOS generation is not running" -/
  | notRunning
  /-- "CodexOS generation is not paused" -/
  | notPaused
  /-- "accepted generation finish has no matching validated successor" -/
  | finishMismatch
  /-- "CodexOS generation state is unavailable" -/
  | stateUnavailable
  /-- "CodexOS generation cannot be aborted" -/
  | notAbortable
  /-- "CodexOS live generation is unavailable" -/
  | generationUnavailable
  /-- "could not stop completed generation" and "could not stop aborted generation" -/
  | notStoppedGuest
  /-- "current generation boot image is unavailable" -/
  | bootImage
  /-- The evidence of the last successful build of an aborted generation is refused. -/
  | evidence
  /-- "generation archive already exists: %s" -/
  | archiveExists
  /-- "completed generation handoff is unavailable" -/
  | noHandoff
  /-- "source capacity requires an inactive generation gate" -/
  | capacityGate
  /-- "bootstrap provisioning/GC requires a validated inactive generation gate without a retained
  interview" and "bootstrap requires an inactive generation gate" -/
  | bootstrapGate
  /-- "generation gate does not match archived history" -/
  | gateMismatch
  | archive (generation : UInt64) (cause : ArchiveError)
  | history (cause : HistoryError)
  | feedback (cause : FeedbackError)
  /-- "operator feedback does not match its aborted generation" -/
  | feedbackSource
  /-- "operator feedback target generation is inconsistent" -/
  | feedbackTarget
  /-- "abort reason was attached more than once" -/
  | feedbackAttachedTwice
  /-- "generation has multiple operator feedback attachments" -/
  | feedbackMultiple
  | harness (cause : HarnessError)
  | snapshot (cause : SnapshotError)
  /-- `operationMu` is held: the call waits, and nothing has happened yet. -/
  | busy
  deriving DecidableEq

/-- The identity of an archive is read again: `writeArchiveHarnessIdentity` and
`ParseHarnessIdentity`. -/
def readArchiveIdentity (identity : HarnessIdentity) : Except ArchiveError Unit :=
  match encodeHarnessIdentity identity with
  | .error _ => .error .identity
  | .ok encoded => do
    failIf (encoded.length > archiveHarnessIdentityLimit) .identity
    failIf (parseHarnessIdentity encoded ≠ .ok identity) .identity

/-- The part of `readArchivedGeneration` about a completed generation. -/
def readCompleted (archive : ArchivedGeneration) : Except ArchiveError Unit :=
  match archive.handoff, archive.sourceSnapshot with
  | some handoff, some snapshot => do
    failIf (handoff.length > archiveHandoffLimit ∨ utf8Valid handoff = false) .handoff
    failIf ((snapshot.length : ℤ) > archive.sourceCapacity.snapshotLimit) .snapshot
    match parseSourceSnapshotWithBudget snapshot archive.sourceCapacity with
    | .error _ => .error .snapshot
    | .ok _ => .ok ()
  | _, _ => .error .handoff

/-- The part of `readArchivedGeneration` about an aborted generation; an archive without a reason is
an old one. -/
def readAborted (archive : ArchivedGeneration) : Except ArchiveError Unit :=
  match archive.abortReason with
  | none => .ok ()
  | some reason => (validateAbortReason reason).mapError fun _ => .reason

/-- The part of `readArchivedGeneration` that depends on the outcome. -/
def readContent (archive : ArchivedGeneration) : Except ArchiveError Unit :=
  match archive.metadata.outcome with
  | .completed => readCompleted archive
  | .aborted => readAborted archive

/-- `readArchivedGeneration`: what it checks of the values in the archive. -/
def readArchivedGeneration (archive : ArchivedGeneration) : Except ArchiveError Unit := do
  failIf (¬archive.sourceCapacity.Valid) .capacity
  failIf (¬archive.metadata.WellFormed) .metadata
  match archive.harnessIdentity with
  | none => pure ()
  | some identity => readArchiveIdentity identity
  readContent archive

/-- `LoadArchivedGenerations`: every archive is read, and they are sorted by their numbers. -/
def loadArchivedGenerations (archives : List ArchivedGeneration) :
    Except RuntimeError (List ArchivedGeneration) := do
  archives.forM fun archive =>
    (readArchivedGeneration archive).mapError (.archive archive.generation)
  return archives.insertionSort fun a b => a.generation ≤ b.generation

/-- The archives, loaded and with their history checked. -/
def loadHistory (archives : List ArchivedGeneration) :
    Except RuntimeError (List ArchivedGeneration) := do
  let archives ← loadArchivedGenerations archives
  (validateArchivedHistory (archives.map ArchivedGeneration.metadata)).mapError .history
  return archives

def inspectGeneration (archives : List ArchivedGeneration) (generation : UInt64) :
    Except RuntimeError ArchivedGeneration :=
  match archives.find? fun archive => archive.generation = generation with
  | none => .error .archiveMissing
  | some archive => do
    (readArchivedGeneration archive).mapError (.archive generation)
    return archive

def validateArchiveMetadataInput (metadata : ArchiveMetadata) : Except RuntimeError Unit :=
  failIf (¬metadata.WellFormed) (.archive metadata.generation .metadata)

/-- `publishArchive`, with what the archive is populated with: it is there before it is read. -/
def publishArchive (archives : List ArchivedGeneration) (archive : ArchivedGeneration) :
    List ArchivedGeneration × Except RuntimeError Unit :=
  if archives.any fun other => other.generation = archive.generation then
    (archives, .error .archiveExists)
  else
    (archives ++ [archive],
      (readArchivedGeneration archive).mapError (.archive archive.generation))

/-- `writeArchiveHarnessIdentity`, and what `NewLiveCodexOSRun` asks of an identity. -/
def checkArchiveIdentity : Option HarnessIdentity → Except RuntimeError Unit
  | none => .ok ()
  | some identity => (validateHarnessIdentity identity).mapError .harness

/-- `writeCompletedArchiveFiles`. -/
def writeCompletedArchive (archives : List ArchivedGeneration) (metadata : ArchiveMetadata)
    (handoff snapshot : Bytes) (capacity : Budget) (identity : Option HarnessIdentity) :
    List ArchivedGeneration × Except RuntimeError Unit :=
  let checked : Except RuntimeError Unit := do
    validateArchiveMetadataInput metadata
    failIf (utf8Valid handoff = false) (.archive metadata.generation .handoff)
    let _ ← (parseSourceSnapshotWithBudget snapshot capacity).mapError .snapshot
    checkArchiveIdentity identity
  match checked with
  | .error error => (archives, .error error)
  | .ok _ =>
    publishArchive archives ⟨metadata, some handoff, some snapshot, none, capacity, identity⟩

/-- `writeAbortedArchiveFiles` and `WriteAbortedArchive`; `evidence` says whether the evidence of
the last successful build is accepted. -/
def writeAbortedArchive (archives : List ArchivedGeneration) (metadata : ArchiveMetadata)
    (reason : Bytes) (evidence : Bool) (capacity : Budget) (identity : Option HarnessIdentity) :
    List ArchivedGeneration × Except RuntimeError Unit :=
  let checked : Except RuntimeError Unit := do
    validateArchiveMetadataInput metadata
    (validateAbortReason reason).mapError .feedback
    failIf (evidence = false) .evidence
    checkArchiveIdentity identity
  match checked with
  | .error error => (archives, .error error)
  | .ok _ => publishArchive archives ⟨metadata, none, none, some reason, capacity, identity⟩

/-! ### Abort reasons -/

/-- The reason of an aborted archive. -/
def ArchivedGeneration.aborted (archive : ArchivedGeneration) : Option Bytes :=
  if archive.metadata.outcome = .aborted then archive.abortReason else none

/-- The last number of a generation. -/
def lastGeneration : UInt64 := UInt64.ofNat (2 ^ 64 - 1)

/-- The number behind the last archive. -/
def maximumTarget (archives : List ArchivedGeneration) : UInt64 :=
  match archives.getLast? with
  | none => 0
  | some latest =>
    if latest.generation = lastGeneration then latest.generation else latest.generation + 1

/-- The reason in the map `aborted` of `validateOperatorFeedbackRecords`. -/
def abortedReason (archives : List ArchivedGeneration) (generation : UInt64) : Option Bytes :=
  (archives.reverse.find? fun archive => archive.generation = generation ∧
    archive.aborted.isSome).bind ArchivedGeneration.aborted

/-- The body of the loop of `validateOperatorFeedbackRecords`, with the records before. -/
def checkFeedbackRecord (archives : List ArchivedGeneration) (seen : List OperatorFeedback)
    (record : OperatorFeedback) : Except RuntimeError (List OperatorFeedback) := do
  (validateOperatorFeedback record).mapError .feedback
  failIf (abortedReason archives record.sourceAbortGeneration ≠ some record.reason) .feedbackSource
  failIf (archives = [] ∨ maximumTarget archives < record.targetGeneration) .feedbackTarget
  failIf (seen.any fun other => other.sourceAbortGeneration = record.sourceAbortGeneration)
    .feedbackAttachedTwice
  failIf (seen.any fun other => other.targetGeneration = record.targetGeneration) .feedbackMultiple
  return seen ++ [record]

def validateOperatorFeedbackRecords (records : List OperatorFeedback)
    (archives : List ArchivedGeneration) : Except RuntimeError Unit := do
  let _ ← records.foldlM (checkFeedbackRecord archives) []

/-- The records of a run, loaded and checked. -/
def loadFeedback (feedback : Directory) (archives : List ArchivedGeneration) :
    Except RuntimeError (List OperatorFeedback) := do
  let records ← (loadOperatorFeedbackRecords feedback).mapError .feedback
  validateOperatorFeedbackRecords records archives
  return records

/-- The last part of `feedbackForGeneration`: the last reason that was not attached. -/
def unattached (records : List OperatorFeedback) (archives : List ArchivedGeneration)
    (generation : UInt64) : Option OperatorFeedback :=
  let found := archives.reverse.find? fun archive => archive.aborted.isSome ∧
    ¬records.any fun record => record.sourceAbortGeneration = archive.generation
  found.bind fun archive =>
    archive.aborted.map fun reason => ⟨generation, archive.generation, reason, 1⟩

def feedbackForGeneration (feedback : Directory) (archives : List ArchivedGeneration)
    (generation : UInt64) : Except RuntimeError (Option OperatorFeedback) := do
  let records ← loadFeedback feedback archives
  match records.find? fun record => record.targetGeneration = generation with
  | some record => return some record
  | none => return unattached records archives generation

def attachOperatorFeedback (feedback : Directory) (archives : List ArchivedGeneration)
    (generation : UInt64) : Except RuntimeError (Directory × Option OperatorFeedback) := do
  let archives ← loadHistory archives
  match ← feedbackForGeneration feedback archives generation with
  | none => return (feedback, none)
  | some attached => do
    let feedback ← (persistOperatorFeedback feedback attached).mapError .feedback
    return (feedback, some attached)

/-! ### The state -/

inductive RuntimeState
  | stopped
  | running
  | paused
  | awaitingNextGeneration
  deriving DecidableEq

structure PendingGenerationFinish where
  handoffMessage : Bytes
  sourceSnapshot : Bytes
  kernelELF : Bytes
  iso : Bytes
  deriving DecidableEq

/-- What `ContinueGeneration` or `ForkFromGeneration` has selected when the guest begins to boot. -/
inductive Selection
  | successor (number : UInt64) (pending : PendingGenerationFinish)
  | rollback (number parent : UInt64)
  deriving DecidableEq

/-- `liveRun`: the identity of the harness, whether it was closed, the source capacity that the
services of the live generation were made with, and the operation that holds `operationMu` while the
guest boots. -/
structure LiveRun where
  harnessIdentity : Option HarnessIdentity
  closed : Bool
  generation : Option Budget
  operation : Option Selection
  deriving DecidableEq

structure CodexOSRun where
  live : Option LiveRun
  sourceCapacity : Budget
  state : RuntimeState
  generationNumber : Option UInt64
  previousHandoff : Option Bytes
  currentOperatorFeedback : Option OperatorFeedback
  pendingFinish : Option PendingGenerationFinish
  currentParent : Option UInt64
  currentTransition : Option Transition
  currentBootImage : Bytes
  /-- The hardware manifest is there: its schema version is not zero. -/
  currentHardware : Bool
  retainedFinish : Option UInt64
  transitioning : Bool
  deriving DecidableEq

/-- What a run has on disk. -/
structure RunDirectory where
  archives : List ArchivedGeneration
  /-- The entries of the run directory, with the attachments. -/
  feedback : Directory
  harness : HarnessStore
  sourceCapacity : Budget
  /-- The handoff of the generation of another run that this one began with. -/
  bootstrap : Option Bytes

/-- A run: what is on disk, and the object of the process that has it open. -/
structure Run where
  disk : RunDirectory
  process : CodexOSRun

/-- What happens outside of the runtime during an operation. -/
structure Fate where
  /-- The image to boot is a regular file. -/
  image : Bool
  /-- The guest boots, from the copy of the image that is named. -/
  boot : Option Bytes
  /-- The guest stops. -/
  stops : Bool
  /-- The evidence of the last successful build is accepted. -/
  evidence : Bool
  /-- The provided assets are configured. -/
  assets : Bool
  /-- The end of the name of a temporary file. -/
  suffix : Bytes

/-- What an operation returns. -/
abbrev Performed : Type := Run × Except RuntimeError Unit

/-- `generationName`. -/
def archiveName (generation : UInt64) : Bytes := ascii "generation-" ++ padded 4 generation.toNat

/-- The path of a file of the successor, from the run directory. -/
def successorPath (generation : UInt64) (file : String) : Bytes :=
  archiveName generation ++ ascii "/successor/" ++ ascii file

/-- What the gate selects once a generation is completed. -/
def selectedFinish (generation : UInt64) (handoff snapshot : Bytes) : PendingGenerationFinish :=
  ⟨handoff, snapshot, successorPath generation "kernel.elf", successorPath generation "codexos.iso"⟩

/-- `NewCodexOSRun`: the object of a process that opens the run, with its live part. -/
def newCodexOSRun (disk : RunDirectory) (live : Option LiveRun) : CodexOSRun where
  live := live
  sourceCapacity := disk.sourceCapacity
  state := .stopped
  generationNumber := none
  previousHandoff := none
  currentOperatorFeedback := none
  pendingFinish := none
  currentParent := none
  currentTransition := none
  currentBootImage := []
  currentHardware := false
  retainedFinish := none
  transitioning := false

def newLiveCodexOSRun (disk : RunDirectory) (identity : Option HarnessIdentity) :
    Except RuntimeError CodexOSRun := do
  checkArchiveIdentity identity
  return newCodexOSRun disk (some ⟨identity, false, none, none⟩)

/-- The parts of the object that `clearStoppedState` and `failLiveGeneration` clear. -/
def CodexOSRun.cleared (process : CodexOSRun) : CodexOSRun :=
  { process with
    pendingFinish := none
    retainedFinish := none
    previousHandoff := none
    currentOperatorFeedback := none
    currentParent := none
    currentTransition := none
    currentBootImage := []
    currentHardware := false
    transitioning := false
    state := .stopped }

/-- The live generation, or the operation that holds `operationMu`, is another one. -/
def CodexOSRun.withLive (process : CodexOSRun) (change : LiveRun → LiveRun) : CodexOSRun :=
  { process with live := process.live.map change }

/-- `operationMu` is free; an object without a live part has none. -/
def CodexOSRun.free (process : CodexOSRun) : Bool :=
  process.live.all fun live => live.operation.isNone

/-- A generation is under way. -/
def CodexOSRun.active (process : CodexOSRun) : Bool :=
  process.state = .running ∨ process.state = .paused

/-- The identity of the harness. -/
def CodexOSRun.identity (process : CodexOSRun) : Option HarnessIdentity :=
  process.live.bind LiveRun.harnessIdentity

def recordHarnessGenerationStart (disk : RunDirectory) (identity : Option HarnessIdentity)
    (suffix : Bytes) (generation : UInt64) : Except RuntimeError RunDirectory :=
  match identity with
  | none => .ok disk
  | some identity => do
    let harness ← (recordGenerationStart disk.harness suffix generation identity).mapError .harness
    return { disk with harness := harness }

/-! ### Starting -/

/-- The object once generation zero has started. -/
def CodexOSRun.startedInitial (process : CodexOSRun) (bootstrap : Option Bytes) (image : Bytes) :
    CodexOSRun :=
  { process.withLive fun live => { live with generation := some process.sourceCapacity } with
    generationNumber := some 0
    currentOperatorFeedback := none
    previousHandoff := bootstrap.or process.previousHandoff
    currentTransition := some .initial
    currentHardware := true
    currentBootImage := image
    state := .running }

def start (fate : Fate) (run : Run) : Performed :=
  match run.process.live with
  | none => (run, .error .noLiveRun)
  | some live =>
    let checked : Except RuntimeError Unit := do
      failIf live.closed .closed
      failIf (run.process.state ≠ .stopped) .notStopped
      failIf run.process.generationNumber.isSome .alreadyStarted
      match live.harnessIdentity with
      | none => pure ()
      | some identity => (verifyCurrent run.disk.harness identity).mapError .harness
      failIf (fate.image = false) .imageMissing
      failIf (fate.assets = false) .assets
    match checked, fate.boot with
    | .error error, _ => (run, .error error)
    | .ok _, none => (run, .error .boot)
    | .ok _, some image =>
      match recordHarnessGenerationStart run.disk live.harnessIdentity fate.suffix 0 with
      | .error error => (run, .error error)
      | .ok disk =>
        (⟨disk, run.process.startedInitial disk.bootstrap image⟩, .ok ())

/-- The gate that the latest archive leaves: what `ReopenAtGate` selects. -/
def gateFinish (latest : ArchivedGeneration) :
    Except RuntimeError (Option PendingGenerationFinish) :=
  if latest.metadata.outcome = .completed then
    match latest.handoff, latest.sourceSnapshot with
    | some handoff, some snapshot =>
      if (snapshot.length : ℤ) ≤ latest.sourceCapacity.snapshotLimit then
        .ok (some (selectedFinish latest.generation handoff snapshot))
      else .error (.archive latest.generation .snapshot)
    | _, _ => .error .noHandoff
  else .ok none

/-- What `ReopenAtGate` reads of the run: its archives, and the latest of them. -/
def readGate (disk : RunDirectory) : Except RuntimeError ArchivedGeneration := do
  let archives ← loadHistory disk.archives
  match archives.getLast? with
  | none => .error .noArchives
  | some latest => do
    let _ ← loadFeedback disk.feedback archives
    return latest

/-- The transition to the identity of the harness, where it has one. -/
def prepareIdentity (harness : HarnessStore) (identity : Option HarnessIdentity)
    (generation : UInt64) : Except RuntimeError (Option HarnessGateTransition) :=
  match identity with
  | none => .ok none
  | some identity => do
    let transition ← (prepareGateTransition harness identity generation).mapError .harness
    return some transition

/-- The transition that was prepared is recorded. -/
def recordIdentity (harness : HarnessStore) (suffix : Bytes) :
    Option HarnessGateTransition → Except RuntimeError HarnessStore
  | none => .ok harness
  | some transition => (recordGateTransition harness suffix transition).mapError .harness

/-- The object at the gate behind the latest archive. Without a live part, it shows the latest
generation. -/
def CodexOSRun.reopened (process : CodexOSRun) (latest : ArchivedGeneration)
    (pending : Option PendingGenerationFinish) : CodexOSRun :=
  { process with
    generationNumber := some latest.generation
    pendingFinish := pending
    previousHandoff := pending.map PendingGenerationFinish.handoffMessage
    currentOperatorFeedback := none
    currentParent := if process.live.isSome then none else latest.metadata.parent
    currentTransition := if process.live.isSome then none else some latest.metadata.transition
    currentBootImage := if process.live.isSome then []
      else archiveName latest.generation ++ ascii "/boot/codexos.iso"
    currentHardware := process.live.isNone
    state := .awaitingNextGeneration }

def reopenAtGate (fate : Fate) (run : Run) : Performed :=
  let reopened : Except RuntimeError Run := do
    failIf (run.process.live.any LiveRun.closed) .closed
    failIf (run.process.state ≠ .stopped) .notStopped
    failIf run.process.generationNumber.isSome .alreadyOpened
    let latest ← readGate run.disk
    let transition ← prepareIdentity run.disk.harness run.process.identity latest.generation
    failIf (run.process.live.isSome ∧ fate.assets = false) .assets
    let pending ← gateFinish latest
    let harness ← recordIdentity run.disk.harness fate.suffix transition
    return ⟨{ run.disk with harness := harness }, run.process.reopened latest pending⟩
  match reopened with
  | .error error => (run, .error error)
  | .ok reopened => (reopened, .ok ())

/-! ### Leaving the gate -/

/-- What `ContinueGeneration` and `ForkFromGeneration` ask first. -/
def requireGate (process : CodexOSRun) : Except RuntimeError Unit := do
  failIf (process.live.isSome ∧ process.transitioning) .transitioning
  failIf process.retainedFinish.isSome .retained
  failIf (process.state ≠ .awaitingNextGeneration) .notAwaiting

/-- What `ContinueGeneration` selects. -/
def selectSuccessor (process : CodexOSRun) : Except RuntimeError Selection := do
  requireGate process
  match process.pendingFinish, process.generationNumber with
  | some pending, some number => do
    failIf (number = lastGeneration) .exhausted
    return .successor number pending
  | _, _ => .error .noSuccessor

/-- What `ForkFromGeneration` selects. -/
def selectRollback (process : CodexOSRun) (parent : UInt64) : Except RuntimeError Selection := do
  requireGate process
  match process.generationNumber with
  | none => .error .noGeneration
  | some number => do
    failIf (number ≤ parent) .forkParent
    failIf (number = lastGeneration) .exhausted
    return .rollback number parent

/-- A generation that is about to start. -/
structure NextGeneration where
  number : UInt64
  parent : UInt64
  transition : Transition
  handoff : Bytes
  image : Bytes
  deriving DecidableEq

def validateInheritedSource (archive : ArchivedGeneration) (capacity : Budget) :
    Except RuntimeError Unit :=
  match archive.sourceSnapshot with
  | none => .error (.archive archive.generation .snapshot)
  | some snapshot => do
    failIf ((snapshot.length : ℤ) > archive.sourceCapacity.snapshotLimit)
      (.archive archive.generation .snapshot)
    let _ ← (parseSourceSnapshotWithBudget snapshot capacity).mapError .snapshot

/-- The archive that a rollback starts from. -/
def rollbackHandoff (archive : ArchivedGeneration) (capacity : Budget) :
    Except RuntimeError Bytes :=
  match archive.metadata.outcome, archive.handoff with
  | .completed, some handoff => do
    validateInheritedSource archive capacity
    return handoff
  | .completed, none => .error .noHandoff
  | .aborted, _ => .error .abortedParent

/-- The generation that was selected. -/
def nextGeneration (archives : List ArchivedGeneration) (capacity : Budget) (image : Bool) :
    Selection → Except RuntimeError NextGeneration
  | .successor number pending => do
    failIf (image = false) .imageMissing
    return ⟨number + 1, number, .successor, pending.handoffMessage, pending.iso⟩
  | .rollback number parent => do
    let archive ← inspectGeneration archives parent
    let handoff ← rollbackHandoff archive capacity
    failIf (image = false) .imageMissing
    return ⟨number + 1, parent, .rollback, handoff, successorPath parent "codexos.iso"⟩

/-- The object once a generation has started. -/
def CodexOSRun.started (process : CodexOSRun) (next : NextGeneration) (image : Bytes)
    (feedback : Option OperatorFeedback) : CodexOSRun :=
  { process with
    generationNumber := some next.number
    currentParent := some next.parent
    currentTransition := some next.transition
    currentBootImage := image
    previousHandoff := some next.handoff
    currentOperatorFeedback := feedback
    pendingFinish := none
    transitioning := false
    state := .running }

/-- The snapshot of the successor is still one under the capacity of the run. -/
def checkSelection (process : CodexOSRun) : Selection → Except RuntimeError Unit
  | .successor _ pending => do
    let _ ← (parseSourceSnapshotWithBudget pending.sourceSnapshot process.sourceCapacity).mapError
      .snapshot
  | .rollback _ _ => .ok ()

/-- The object while the guest boots. -/
def CodexOSRun.selected (process : CodexOSRun) (selection : Selection) : CodexOSRun :=
  { process.withLive fun live => { live with operation := some selection } with
    transitioning := true }

/-- The first part of `continueLiveGeneration` and `forkLiveGeneration`: from here on the operation
holds `operationMu`, and the gate is in transition. -/
def beginTransition (selected : Except RuntimeError Selection) (run : Run) : Performed :=
  match selected with
  | .error error => (run, .error error)
  | .ok selection =>
    match checkSelection run.process selection with
    | .error error => (run, .error error)
    | .ok _ => (⟨run.disk, run.process.selected selection⟩, .ok ())

/-- The object once the guest of a generation has booted. -/
def CodexOSRun.startedLive (process : CodexOSRun) (next : NextGeneration) (image : Bytes)
    (feedback : Option OperatorFeedback) : CodexOSRun :=
  { (process.withLive fun live =>
        { live with operation := none, generation := some process.sourceCapacity }).started
      next image feedback with currentHardware := true }

/-- `clearLiveTransition`, and `operationMu` is free again. -/
def CodexOSRun.clearLiveTransition (process : CodexOSRun) : CodexOSRun :=
  { process.withLive fun live => { live with operation := none } with transitioning := false }

/-- The second part of `continueLiveGeneration` and `forkLiveGeneration`: the guest boots, the start
is recorded, and a reason is attached. What was recorded stays where a later step fails. -/
def finishTransition (fate : Fate) (run : Run) : Performed :=
  match run.process.live.bind LiveRun.operation with
  | none => (run, .error .busy)
  | some selection =>
    let failed (disk : RunDirectory) (error : RuntimeError) : Performed :=
      (⟨disk, run.process.clearLiveTransition⟩, .error error)
    match nextGeneration run.disk.archives run.process.sourceCapacity fate.image selection,
      fate.boot with
    | .error error, _ => failed run.disk error
    | .ok _, none => failed run.disk .boot
    | .ok next, some image =>
      match recordHarnessGenerationStart run.disk run.process.identity fate.suffix next.number with
      | .error error => failed run.disk error
      | .ok disk =>
        match attachOperatorFeedback disk.feedback disk.archives next.number with
        | .error error => failed disk error
        | .ok (feedback, attached) =>
          (⟨{ disk with feedback := feedback }, run.process.startedLive next image attached⟩,
            .ok ())

/-- `ContinueGeneration` and `ForkFromGeneration` without a live part, under `gateMu` as a whole. -/
def transitionOffline (selected : Except RuntimeError Selection) (fate : Fate) (run : Run) :
    Performed :=
  let next : Except RuntimeError (Directory × CodexOSRun) := do
    let selection ← selected
    let next ← nextGeneration run.disk.archives run.process.sourceCapacity fate.image selection
    checkSelection run.process selection
    let (feedback, attached) ←
      attachOperatorFeedback run.disk.feedback run.disk.archives next.number
    return (feedback, run.process.started next next.image attached)
  match next with
  | .error error => (run, .error error)
  | .ok (feedback, process) => (⟨{ run.disk with feedback := feedback }, process⟩, .ok ())

/-- `ContinueGeneration` and `ForkFromGeneration`, up to the boot of a live guest. -/
def leaveGate (selected : Except RuntimeError Selection) (fate : Fate) (run : Run) : Performed :=
  if run.process.live.isSome then beginTransition selected run
  else transitionOffline selected fate run

/-! ### Ending a generation -/

/-- The archive of the current generation. -/
def currentMetadata (process : CodexOSRun) (outcome : Outcome) :
    Except RuntimeError ArchiveMetadata :=
  match process.generationNumber, process.currentTransition, process.currentHardware with
  | some number, some transition, true => .ok ⟨number, process.currentParent, transition, outcome⟩
  | _, _, _ => .error .stateUnavailable

/-- The object at the gate once a live generation has ended. -/
def CodexOSRun.atGate (process : CodexOSRun) (pending : Option PendingGenerationFinish) :
    CodexOSRun :=
  { process.withLive fun live => { live with generation := none } with
    pendingFinish := pending
    previousHandoff := pending.map PendingGenerationFinish.handoffMessage
    currentOperatorFeedback := none
    currentBootImage := []
    currentParent := none
    currentTransition := none
    currentHardware := false
    state := .awaitingNextGeneration }

/-- The object once the archive of a live generation could not be written. -/
def CodexOSRun.failed (process : CodexOSRun) : CodexOSRun :=
  (process.withLive fun live => { live with generation := none }).cleared

/-- The finish that the services of the live generation accept when the guest asks for it, and the
build that they have validated. -/
def acceptedFinish (config : Build.ServiceConfig) (services : Build.HostServices)
    (arguments : List Bytes) :
    Option (Build.PendingGenerationFinish × Build.StagedBuildArtifacts) := do
  let pending ← (Build.finishGeneration config arguments services).2.pendingFinish
  let validated ← services.latestSuccessful
  return (pending, validated)

/-- `completeLiveGeneration`, behind the finish of the guest. -/
def completeLiveGeneration (fate : Fate) (pending : Build.PendingGenerationFinish)
    (validated : Build.StagedBuildArtifacts) (run : Run) : Performed :=
  if pending.kernelELF ≠ validated.kernelELF ∨ pending.iso ≠ validated.iso ∨
      pending.sourceSnapshot ≠ validated.sourceSnapshot then (run, .error .finishMismatch)
  else if run.process.state ≠ .running then (run, .error .stateUnavailable)
  else
    match currentMetadata run.process .completed with
    | .error error => (run, .error error)
    | .ok metadata =>
      match recordHarnessGenerationStart run.disk run.process.identity fate.suffix
        metadata.generation with
      | .error error => (run, .error error)
      | .ok disk =>
        if fate.stops = false then (⟨disk, run.process⟩, .error .notStoppedGuest)
        else
          match writeCompletedArchive disk.archives metadata pending.handoffMessage
            pending.sourceSnapshot run.process.sourceCapacity run.process.identity with
          | (archives, .error error) =>
            (⟨{ disk with archives := archives }, run.process.failed⟩, .error error)
          | (archives, .ok _) =>
            (⟨{ disk with archives := archives },
              run.process.atGate (some (selectedFinish metadata.generation pending.handoffMessage
                pending.sourceSnapshot))⟩, .ok ())

/-- A guest finishes its generation: the services must be those of the live generation, and have
accepted no finish before. -/
def complete (fate : Fate) (config : Build.ServiceConfig) (services : Build.HostServices)
    (arguments : List Bytes) (run : Run) : Performed :=
  if run.process.live.bind LiveRun.generation ≠ some config.sourceCapacity ∨
      services.pendingFinish.isSome ∨ run.process.state ≠ .running then (run, .error .notRunning)
  else
    match acceptedFinish config services arguments with
    | none => (run, .error .notRunning)
    | some (pending, validated) => completeLiveGeneration fate pending validated run

/-- The object at the gate once a live generation was aborted. -/
def CodexOSRun.abortedLive (process : CodexOSRun) : CodexOSRun :=
  { process.atGate none with retainedFinish := none }

def abortLiveGeneration (fate : Fate) (reason : Bytes) (run : Run) : Performed :=
  let checked : Except RuntimeError ArchiveMetadata := do
    (validateAbortReason reason).mapError .feedback
    failIf (run.process.state ≠ .running ∧ run.process.state ≠ .paused) .notAbortable
    currentMetadata run.process .aborted
  match checked with
  | .error error => (run, .error error)
  | .ok metadata =>
    match recordHarnessGenerationStart run.disk run.process.identity fate.suffix
      metadata.generation with
    | .error error => (run, .error error)
    | .ok disk =>
      if (run.process.live.bind LiveRun.generation).isNone then
        (⟨disk, run.process⟩, .error .generationUnavailable)
      else if fate.stops = false then (⟨disk, run.process⟩, .error .notStoppedGuest)
      else
        match writeAbortedArchive disk.archives metadata reason fate.evidence
          run.process.sourceCapacity run.process.identity with
        | (archives, .error error) =>
          (⟨{ disk with archives := archives }, run.process.failed⟩, .error error)
        | (archives, .ok _) =>
          (⟨{ disk with archives := archives }, run.process.abortedLive⟩, .ok ())

/-- The object at the gate once a generation without a live part was aborted. -/
def CodexOSRun.abortedOffline (process : CodexOSRun) : CodexOSRun :=
  { process with
    pendingFinish := none
    retainedFinish := none
    previousHandoff := none
    currentOperatorFeedback := none
    currentBootImage := []
    state := .awaitingNextGeneration }

/-- `AbortGeneration` without a live part. -/
def abortOffline (fate : Fate) (reason : Bytes) (run : Run) : Performed :=
  let checked : Except RuntimeError ArchiveMetadata := do
    (validateAbortReason reason).mapError .feedback
    failIf (run.process.state ≠ .running) .notAbortable
    let metadata ← currentMetadata run.process .aborted
    failIf (fate.image = false) .bootImage
    return metadata
  match checked with
  | .error error => (run, .error error)
  | .ok metadata =>
    match writeAbortedArchive run.disk.archives metadata reason true run.process.sourceCapacity
      none with
    | (archives, .error error) =>
      (⟨{ run.disk with archives := archives }, run.process⟩, .error error)
    | (archives, .ok _) =>
      (⟨{ run.disk with archives := archives }, run.process.abortedOffline⟩, .ok ())

/-- `AbortGeneration`. -/
def abort (fate : Fate) (reason : Bytes) (run : Run) : Performed :=
  if run.process.live.isSome then abortLiveGeneration fate reason run
  else abortOffline fate reason run

def pause (run : Run) : Performed :=
  if (run.process.live.bind LiveRun.generation).isNone ∨ run.process.state ≠ .running ∨
      run.process.generationNumber = none then (run, .error .notRunning)
  else (⟨run.disk, { run.process with state := .paused }⟩, .ok ())

def resume (run : Run) : Performed :=
  if (run.process.live.bind LiveRun.generation).isNone ∨ run.process.state ≠ .paused ∨
      run.process.generationNumber = none then (run, .error .notPaused)
  else (⟨run.disk, { run.process with state := .running }⟩, .ok ())

/-- `Close`, once a boot that is under way was cancelled and the guest has stopped. -/
def close (process : CodexOSRun) : CodexOSRun :=
  (process.withLive fun live =>
    { live with closed := true, generation := none, operation := none }).cleared

/-- The object is closed, between two operations, and another process opens the run. -/
def reopen (live : Option (Option HarnessIdentity)) (run : Run) : Performed :=
  match live with
  | none => (⟨run.disk, newCodexOSRun run.disk none⟩, .ok ())
  | some identity =>
    match newLiveCodexOSRun run.disk identity with
    | .error error => (⟨run.disk, close run.process⟩, .error error)
    | .ok process => (⟨run.disk, process⟩, .ok ())

/-! ### The gate -/

def retainGenerationFinish (generation : UInt64) (process : CodexOSRun) : CodexOSRun × Bool :=
  if process.transitioning ∨ process.retainedFinish.isSome ∨
      process.state ≠ .awaitingNextGeneration ∨ process.pendingFinish = none ∨
      process.generationNumber ≠ some generation then (process, false)
  else ({ process with retainedFinish := some generation }, true)

def releaseGenerationFinish (generation : UInt64) (process : CodexOSRun) : CodexOSRun :=
  if process.retainedFinish = some generation then { process with retainedFinish := none }
  else process

/-- What `SetSourceCapacity` and `requireBootstrapGate` ask of the object. -/
def requireInactiveGate (error : RuntimeError) (process : CodexOSRun) :
    Except RuntimeError UInt64 := do
  failIf (process.live.any fun live => live.closed ∨ live.generation.isSome) error
  match process.generationNumber with
  | none => .error error
  | some number => do
    failIf (process.state ≠ .awaitingNextGeneration ∨ process.retainedFinish.isSome ∨
      process.transitioning) error
    return number

/-- What they ask of the archives. -/
def requireLatest (disk : RunDirectory) (number : UInt64) :
    Except RuntimeError ArchivedGeneration := do
  let archives ← loadHistory disk.archives
  match archives.getLast? with
  | none => .error .gateMismatch
  | some latest => do
    failIf (latest.generation ≠ number) .gateMismatch
    return latest

def setSourceCapacity (capacity : Budget) (run : Run) : Performed :=
  let checked : Except RuntimeError Unit := do
    capacity.validate.mapError .snapshot
    let number ← requireInactiveGate .capacityGate run.process
    let latest ← requireLatest run.disk number
    match latest.metadata.outcome with
    | .completed => validateInheritedSource latest capacity
    | .aborted => pure ()
    match run.process.pendingFinish with
    | none => pure ()
    | some pending => do
      let _ ← (parseSourceSnapshotWithBudget pending.sourceSnapshot capacity).mapError .snapshot
  match checked with
  | .error error => (run, .error error)
  | .ok _ =>
    (⟨{ run.disk with sourceCapacity := capacity.bytes },
      { run.process with sourceCapacity := capacity.bytes }⟩, .ok ())

/-- `ProvisionBootstrap` and `GarbageCollectBootstrap`, as far as they concern the run: they change
only the storage of the bootstrap service. -/
def bootstrapAtGate (run : Run) : Performed :=
  (run, do
    let number ← requireInactiveGate .bootstrapGate run.process
    let _ ← requireLatest run.disk number)

/-! ### Runs -/

inductive Operation
  | reopen (live : Option (Option HarnessIdentity))
  | start (fate : Fate)
  | reopenAtGate (fate : Fate)
  | continueGeneration (fate : Fate)
  | forkFromGeneration (fate : Fate) (parent : UInt64)
  /-- The guest of a generation that was selected has booted, or has not. -/
  | finishTransition (fate : Fate)
  | complete (fate : Fate) (config : Build.ServiceConfig) (services : Build.HostServices)
      (arguments : List Bytes)
  | abort (fate : Fate) (reason : Bytes)
  | pause
  | resume
  | retainGenerationFinish (generation : UInt64)
  | releaseGenerationFinish (generation : UInt64)
  | setSourceCapacity (capacity : Budget)
  | bootstrapAtGate

/-- An operation that waits for `operationMu`. -/
def exclusive (operation : Run → Performed) (run : Run) : Performed :=
  if run.process.free then operation run else (run, .error .busy)

def perform (run : Run) : Operation → Performed
  | .reopen live => Experiment.reopen live run
  | .start fate => exclusive (Experiment.start fate) run
  | .reopenAtGate fate => exclusive (Experiment.reopenAtGate fate) run
  | .continueGeneration fate =>
    exclusive (fun run => leaveGate (selectSuccessor run.process) fate run) run
  | .forkFromGeneration fate parent =>
    exclusive (fun run => leaveGate (selectRollback run.process parent) fate run) run
  | .finishTransition fate => Experiment.finishTransition fate run
  | .complete fate config services arguments =>
    exclusive (Experiment.complete fate config services arguments) run
  | .abort fate reason => exclusive (Experiment.abort fate reason) run
  | .pause => exclusive Experiment.pause run
  | .resume => exclusive Experiment.resume run
  | .retainGenerationFinish generation =>
    (⟨run.disk, (Experiment.retainGenerationFinish generation run.process).1⟩, .ok ())
  | .releaseGenerationFinish generation =>
    (⟨run.disk, Experiment.releaseGenerationFinish generation run.process⟩, .ok ())
  | .setSourceCapacity capacity => exclusive (Experiment.setSourceCapacity capacity) run
  | .bootstrapAtGate => exclusive Experiment.bootstrapAtGate run

/-- What operations do, one after the other. -/
def performAll (run : Run) (operations : List Operation) : Run :=
  operations.foldl (fun run operation => (perform run operation).1) run

end Carcer.Experiment
