import Carcer.Provenance.Planning

/-!
# Review evidence

`ReviewEvidence` of `internal/provenance/forensic.go`: the evidence of one review. The evidence is a
manifest in memory and a directory of private texts, the source snapshot and the contents that were
read by the reviewer. A call writes contents first and publishes the manifest last; any of these
writes may fail before the file is renamed into its place. The manifest in memory is changed before
it is published, so that a later call publishes what an earlier one could not; a content that cannot
be written makes the evidence incomplete for good.

The receiver is not nil, and `source_reads` is always a list in memory. What the operating system
says of a failed write is left out. A request ID is any JSON value; where it could not be encoded,
the manifest is not published.

## Main definitions

* `ReviewManifest`, `ReviewEvidence`: the manifest, and the evidence of a review
* `ReviewCall`, `ReviewEvidence.perform`: the calls on the evidence of one review
* `entriesOf`: what the manifest lists of the reads
* `ReviewEffect`: what one call does

## Main results

* `perform_effect`: every call has one of the effects
* `Captured.step`, `ReviewEffect.continues`: every call keeps the invariants
* `review_recorded`: what a manifest that claims complete evidence lists, over every sequence of
  calls, whichever writes fail
-/

namespace Carcer.Provenance

open Carcer.Wire Carcer.Json Carcer.Disk List

/-! ### Manifests -/

inductive ReviewStage
  | started
  | yieldRequested
  | awaitingReview
  | sourceRead
  | awaitingContinuation
  | resuming
  | completed
  deriving DecidableEq

/-- A stage as it is written. -/
def ReviewStage.text : ReviewStage → Bytes
  | .started => ascii "started"
  | .yieldRequested => ascii "yield_requested"
  | .awaitingReview => ascii "awaiting_review"
  | .sourceRead => ascii "source_read"
  | .awaitingContinuation => ascii "awaiting_continuation"
  | .resuming => ascii "resuming"
  | .completed => ascii "completed"

/-- What became of the capture. -/
inductive CaptureOutcome
  | inProgress
  | complete
  | incomplete
  deriving DecidableEq

/-- A capture outcome as it is written. -/
def CaptureOutcome.text : CaptureOutcome → Bytes
  | .inProgress => ascii "in_progress"
  | .complete => ascii "complete"
  | .incomplete => ascii "incomplete"

/-- The identity of a private text. -/
structure PrivateText where
  present : Bool
  sha256 : Bytes
  size : ℕ
  file : Bytes

structure ReviewYieldOrigin where
  requestID : Value
  callID : Bytes
  threadID : Bytes
  turnID : Bytes
  phase : Bytes
  focus : Bytes
  request : Option Bytes
  proposal : Option Bytes

/-- `yield` of the manifest: the origin, and the identities of its texts. -/
structure ReviewYield where
  origin : ReviewYieldOrigin
  request : PrivateText
  proposal : PrivateText

/-- What the reviewer read: the arguments of `RecordSourceRead`. -/
structure SourceRead where
  path : Bytes
  offset : Int64
  length : Int64
  status : Int64
  output : Bytes

/-- An entry of `source_reads`. The number is one more than the length of a slice, and does not
overflow. -/
structure SourceReadEntry where
  sequence : ℕ
  path : Bytes
  offset : Int64
  length : Int64
  status : Int64
  returnedBytes : ℕ
  sha256 : Bytes
  contentFile : Bytes
  deriving DecidableEq

/-- The manifest of a review, without its kind and its schema version, which never change. An
option is a member that is not there at first. -/
structure ReviewManifest where
  generation : UInt64
  reviewID : Bytes
  harnessIdentity : Option HarnessIdentity
  stage : ReviewStage
  reviewOutcome : Bytes
  captureOutcome : CaptureOutcome
  evidenceComplete : Bool
  sourceReads : List SourceReadEntry
  yield : Option ReviewYield
  sourceSnapshot : Option (Bytes × ℕ)
  originStatus : Option Bytes
  continuationResult : Option PrivateText
  reviewer : Option (Bytes × Bytes)
  continuationTurnID : Option Bytes
  continuationStatus : Option Bytes

/-- The file of the source snapshot. -/
def snapshotFile : Bytes := ascii "source.snapshot"

def PrivateText.asJSON (text : PrivateText) : Value :=
  membersJSON [(ascii "file", some (.string text.file)),
    (ascii "present", some (.bool text.present)),
    (ascii "sha256", some (.string text.sha256)), (ascii "size", some (numberJSON text.size))]

/-- `yield` as JSON. -/
def ReviewYield.asJSON (y : ReviewYield) : Value :=
  membersJSON [(ascii "call_id", some (.string y.origin.callID)),
    (ascii "focus", some (.string y.origin.focus)),
    (ascii "phase", some (.string y.origin.phase)),
    (ascii "proposal", some y.proposal.asJSON),
    (ascii "request", some y.request.asJSON),
    (ascii "request_id", some y.origin.requestID),
    (ascii "thread_id", some (.string y.origin.threadID)),
    (ascii "turn_id", some (.string y.origin.turnID))]

/-- A signed number as JSON. -/
def signedJSON (n : Int64) : Value := .number (Codec.integerLiteral n.toInt)

/-- An entry of `source_reads` as JSON. -/
def SourceReadEntry.asJSON (entry : SourceReadEntry) : Value :=
  membersJSON [(ascii "content_file", some (.string entry.contentFile)),
    (ascii "length", some (signedJSON entry.length)),
    (ascii "offset", some (signedJSON entry.offset)),
    (ascii "path", some (.string entry.path)),
    (ascii "returned_bytes", some (numberJSON entry.returnedBytes)),
    (ascii "sequence", some (numberJSON entry.sequence)),
    (ascii "sha256", some (.string entry.sha256)),
    (ascii "status", some (signedJSON entry.status))]

def forensicSchemaVersion : ℕ := 1

/-- The manifest as JSON, a map with its keys in order. -/
def ReviewManifest.asJSON (m : ReviewManifest) : Value :=
  membersJSON [(ascii "capture_outcome", some (.string m.captureOutcome.text)),
    (ascii "continuation_result", m.continuationResult.map PrivateText.asJSON),
    (ascii "continuation_status", m.continuationStatus.map .string),
    (ascii "continuation_turn_id", m.continuationTurnID.map .string),
    (ascii "evidence_complete", some (.bool m.evidenceComplete)),
    (ascii "generation", some (numberJSON m.generation.toNat)),
    (ascii "harness_identity", m.harnessIdentity.map HarnessIdentity.asJSON),
    (ascii "kind", some (.string (ascii "review"))),
    (ascii "origin_status", m.originStatus.map .string),
    (ascii "review_id", some (.string m.reviewID)),
    (ascii "review_outcome", some (.string m.reviewOutcome)),
    (ascii "reviewer", m.reviewer.map fun turn => membersJSON
      [(ascii "thread_id", some (.string turn.1)), (ascii "turn_id", some (.string turn.2))]),
    (ascii "schema_version", some (numberJSON forensicSchemaVersion)),
    (ascii "source_reads", some (.array (m.sourceReads.map SourceReadEntry.asJSON))),
    (ascii "source_snapshot", m.sourceSnapshot.map fun snapshot => membersJSON
      [(ascii "file", some (.string snapshotFile)), (ascii "sha256", some (.string snapshot.1)),
        (ascii "size", some (numberJSON snapshot.2))]),
    (ascii "stage", some (.string m.stage.text)),
    (ascii "yield", m.yield.map ReviewYield.asJSON)]

/-- What `writeForensicJSON` writes. -/
def ReviewManifest.encoded (m : ReviewManifest) : Bytes := asciiJSON (encodeHarnessJSON m.asJSON)

/-! ### Evidence -/

inductive ReviewError
  /-- "review yield identity is incomplete" -/
  | yieldIncomplete
  /-- "review yield has already been recorded" -/
  | yieldRecorded
  /-- "review yield %s is not valid UTF-8", with the name of a field that is not; which one, of
  several, is not determined. -/
  | yieldEncoding
  /-- "review yield text is not valid UTF-8" -/
  | textEncoding
  /-- "review yield is not ready for a source snapshot" -/
  | snapshotNotReady
  /-- "review origin did not quiesce with a supported status" -/
  | originStatus
  /-- "review yield outcome is invalid" -/
  | outcomeInvalid
  /-- "review result has already been recorded" -/
  | resultRecorded
  /-- "reviewer turn identity is invalid" -/
  | reviewerInvalid
  /-- "reviewer turn identity has already been recorded" -/
  | reviewerRecorded
  /-- "review continuation turn ID is invalid" -/
  | continuationInvalid
  /-- "review continuation cannot start from the current state" -/
  | continuationState
  /-- "review continuation has already started" -/
  | continuationStarted
  /-- "review continuation status is invalid" -/
  | statusInvalid
  /-- "review continuation is not active" -/
  | continuationInactive
  /-- "cannot write forensic provenance %s" -/
  | write (name : Bytes)
  deriving DecidableEq

/-- `ReviewEvidence`, with the files of its directory. -/
structure ReviewEvidence where
  manifest : ReviewManifest
  files : Named Bytes
  irrecoverablyIncomplete : Bool

/-- What a recorder is told: the name of an event, and its data. -/
structure ReviewEvent where
  name : Bytes
  data : List (Bytes × Value)

/-- What a call does: the evidence behind it, the manifest that it published, the event that it
recorded, and what it returns. -/
structure ReviewPerformed where
  evidence : ReviewEvidence
  published : Option ReviewManifest
  event : Option ReviewEvent
  result : Except ReviewError Unit

/-- Which of the writes of a call get as far as the rename, and in which order the two texts of a
yield are written. -/
structure ReviewWrites where
  request : Bool
  proposal : Bool
  content : Bool
  manifest : Bool
  proposalFirst : Bool

/-- The evidence of `BeginReview`, in a directory that was just allocated. -/
def beginReview (generation : UInt64) (reviewID : Bytes) (identity : Option HarnessIdentity) :
    ReviewEvidence :=
  let manifest : ReviewManifest :=
    ⟨generation, reviewID, identity, .started, ascii "incomplete", .inProgress, false, [], none,
      none, none, none, none, none, none⟩
  ⟨manifest, [(manifestFile, manifest.encoded)], false⟩

/-- The data of `recordYieldEvent` that come from the manifest. -/
def yieldData (m : ReviewManifest) : List (Bytes × Value) :=
  let text (name : Bytes) (t : PrivateText) : List (Bytes × Value) :=
    [(name ++ ascii "_present", .bool t.present), (name ++ ascii "_sha256", .string t.sha256),
      (name ++ ascii "_bytes", numberJSON t.size)]
  [(ascii "review_id", .string m.reviewID), (ascii "stage", .string m.stage.text)] ++
    (m.yield.elim [] fun y =>
      [(ascii "request_id", y.origin.requestID), (ascii "call_id", .string y.origin.callID),
        (ascii "thread_id", .string y.origin.threadID), (ascii "turn_id", .string y.origin.turnID),
        (ascii "phase", .string y.origin.phase), (ascii "focus", .string y.origin.focus)] ++
      text (ascii "request") y.request ++ text (ascii "proposal") y.proposal) ++
    (m.sourceSnapshot.elim [] fun snapshot =>
      [(ascii "source_snapshot_sha256", .string snapshot.1),
        (ascii "source_snapshot_bytes", numberJSON snapshot.2)]) ++
    m.continuationResult.elim [] fun result =>
      [(ascii "continuation_result_sha256", .string result.sha256),
        (ascii "continuation_result_bytes", numberJSON result.size)]

def recordYieldEvent (event : Bytes) (extra : List (Bytes × Value)) (m : ReviewManifest) :
    ReviewEvent := ⟨event, yieldData m ++ extra⟩

namespace ReviewEvidence

def refused (error : ReviewError) (e : ReviewEvidence) : ReviewPerformed :=
  ⟨e, none, none, .error error⟩

/-- `update`, with the event that is recorded when it is done. -/
def update (writes : ReviewWrites) (m : ReviewManifest) (event : Option ReviewEvent)
    (e : ReviewEvidence) : ReviewPerformed :=
  if writes.manifest then
    ⟨⟨m, e.files.put manifestFile m.encoded, e.irrecoverablyIncomplete⟩, some m, event, .ok ()⟩
  else ⟨{ e with manifest := m }, none, none, .error (.write manifestFile)⟩

/-- The manifest of evidence that is incomplete. -/
def marked (m : ReviewManifest) : ReviewManifest :=
  { m with captureOutcome := .incomplete, evidenceComplete := false }

/-- A content could not be written: `markCaptureIncomplete`, and the error of the content. -/
def markCaptureIncomplete (writes : ReviewWrites) (file : Bytes) (e : ReviewEvidence) :
    ReviewPerformed :=
  { update writes (marked e.manifest) none { e with irrecoverablyIncomplete := true } with
    result := .error (.write file) }

variable (digest : Bytes → Bytes)

/-- `writePrivateText`: the text that was written, or what the call that writes it does. -/
def writePrivateText (writes : ReviewWrites) (written : Bool) (file : Bytes) (value : Option Bytes)
    (e : ReviewEvidence) : Except ReviewPerformed (PrivateText × ReviewEvidence) :=
  let contents := value.getD []
  if utf8Valid contents = false then .error (e.refused .textEncoding)
  else if written then
    .ok (⟨value.isSome, digest contents, contents.length, file⟩,
      { e with files := e.files.put file contents })
  else .error (e.markCaptureIncomplete writes file)

/-- The file of the request of a yield. -/
def requestFile : Bytes := ascii "request.txt"

/-- The file of the proposal of a yield. -/
def proposedFile : Bytes := ascii "proposal.txt"

/-- The file of the result of a review. -/
def resultFile : Bytes := ascii "result.txt"

/-- The two texts of a yield, in either order. -/
def writeYieldTexts (writes : ReviewWrites) (origin : ReviewYieldOrigin) (e : ReviewEvidence) :
    Except ReviewPerformed ((PrivateText × PrivateText) × ReviewEvidence) :=
  if writes.proposalFirst then do
    let (proposal, e) ←
      e.writePrivateText digest writes writes.proposal proposedFile origin.proposal
    let (request, e) ← e.writePrivateText digest writes writes.request requestFile origin.request
    return ((request, proposal), e)
  else do
    let (request, e) ← e.writePrivateText digest writes writes.request requestFile origin.request
    let (proposal, e) ←
      e.writePrivateText digest writes writes.proposal proposedFile origin.proposal
    return ((request, proposal), e)

def recordYieldRequested (writes : ReviewWrites) (origin : ReviewYieldOrigin) (e : ReviewEvidence) :
    ReviewPerformed :=
  let fields := [origin.callID, origin.threadID, origin.turnID, origin.phase, origin.focus]
  if fields.any List.isEmpty then e.refused .yieldIncomplete
  else if e.manifest.stage ≠ .started then e.refused .yieldRecorded
  else if fields.all utf8Valid = false then e.refused .yieldEncoding
  else match e.writeYieldTexts digest writes origin with
    | .error performed => performed
    | .ok ((request, proposal), e) =>
      let m := { e.manifest with
        yield := some ⟨origin, request, proposal⟩, stage := .yieldRequested }
      e.update writes m (some (recordYieldEvent (ascii "review_yield_requested") [] m))

def recordAwaitingReview (writes : ReviewWrites) (snapshot originStatus : Bytes)
    (e : ReviewEvidence) : ReviewPerformed :=
  if e.manifest.stage ≠ .yieldRequested then e.refused .snapshotNotReady
  else if originStatus ≠ ascii "completed" ∧ originStatus ≠ ascii "interrupted" then
    e.refused .originStatus
  else if writes.content = false then e.markCaptureIncomplete writes snapshotFile
  else
    let m := { e.manifest with
      sourceSnapshot := some (digest snapshot, snapshot.length), originStatus := some originStatus,
      stage := .awaitingReview }
    update writes m (some (recordYieldEvent (ascii "review_yield_awaiting_review")
      [(ascii "origin_status", .string originStatus)] m))
      { e with files := e.files.put snapshotFile snapshot }

/-- The manifest with the result of the review. -/
def withResult (m : ReviewManifest) (outcome : Bytes) (result : PrivateText) : ReviewManifest :=
  let m := { m with continuationResult := some result, reviewOutcome := outcome }
  let m := if m.captureOutcome = .inProgress then marked m else m
  { m with stage := .awaitingContinuation }

def recordReviewResult (writes : ReviewWrites) (outcome result : Bytes) (e : ReviewEvidence) :
    ReviewPerformed :=
  if outcome ≠ ascii "completed" ∧ outcome ≠ ascii "failed" ∧ outcome ≠ ascii "cancelled" then
    e.refused .outcomeInvalid
  else if e.manifest.stage = .awaitingContinuation ∨ e.manifest.stage = .resuming ∨
      e.manifest.stage = .completed ∧ e.manifest.continuationResult.isSome then
    e.refused .resultRecorded
  else match e.writePrivateText digest writes writes.content resultFile (some result) with
    | .error performed => performed
    | .ok (text, e) =>
      let m := withResult e.manifest outcome text
      e.update writes m (some (recordYieldEvent (ascii "review_yield_ready_to_resume")
        [(ascii "review_outcome", .string outcome)] m))

def recordReviewerTurn (writes : ReviewWrites) (threadID turnID : Bytes) (e : ReviewEvidence) :
    ReviewPerformed :=
  if threadID = [] ∨ turnID = [] ∨ utf8Valid threadID = false ∨ utf8Valid turnID = false then
    e.refused .reviewerInvalid
  else if e.manifest.reviewer.isSome then e.refused .reviewerRecorded
  else
    let m := { e.manifest with reviewer := some (threadID, turnID) }
    e.update writes m (some (recordYieldEvent (ascii "review_turn_identified")
      [(ascii "reviewer_thread_id", .string threadID),
        (ascii "reviewer_turn_id", .string turnID)] m))

/-- The event of a continuation that starts. -/
def resumingEvent : Bytes := ascii "review_yield_resuming"

def recordContinuationStarted (writes : ReviewWrites) (turnID : Bytes) (e : ReviewEvidence) :
    ReviewPerformed :=
  if utf8Valid turnID = false ∨ turnID = [] then e.refused .continuationInvalid
  else if e.manifest.stage ≠ .awaitingContinuation then e.refused .continuationState
  else if e.manifest.continuationTurnID.isSome then e.refused .continuationStarted
  else
    let m := { e.manifest with continuationTurnID := some turnID, stage := .resuming }
    e.update writes m (some (recordYieldEvent resumingEvent
      [(ascii "continuation_turn_id", .string turnID)] m))

/-- The event of a continuation that is over. -/
def finishedEvent : Bytes := ascii "review_yield_completed"

def recordContinuationFinished (writes : ReviewWrites) (status : Bytes) (e : ReviewEvidence) :
    ReviewPerformed :=
  if status ≠ ascii "completed" ∧ status ≠ ascii "interrupted" ∧ status ≠ ascii "failed" then
    e.refused .statusInvalid
  else if e.manifest.stage ≠ .resuming then e.refused .continuationInactive
  else
    let m := { e.manifest with continuationStatus := some status, stage := .completed }
    e.update writes m (some (recordYieldEvent finishedEvent
      [(ascii "continuation_status", .string status)] m))

/-- The file of a content that was read. -/
def readFile (sequence : ℕ) : Bytes := Wire.numbered (ascii "read-") (ascii ".bin") 6 sequence

def readEntry (sequence : ℕ) (read : SourceRead) : SourceReadEntry :=
  ⟨sequence, read.path, read.offset, read.length, read.status, read.output.length,
    digest read.output, readFile sequence⟩

/-- The manifest with a read. -/
def withRead (m : ReviewManifest) (read : SourceRead) : ReviewManifest :=
  { m with
    sourceReads := m.sourceReads ++ [readEntry digest (m.sourceReads.length + 1) read],
    stage := .sourceRead }

def recordSourceRead (writes : ReviewWrites) (read : SourceRead) (e : ReviewEvidence) :
    ReviewPerformed :=
  let file := readFile (e.manifest.sourceReads.length + 1)
  if writes.content = false then e.markCaptureIncomplete writes file
  else
    update writes (withRead digest e.manifest read) (some ⟨ascii "review_source_read",
        [(ascii "review_id", .string e.manifest.reviewID), (ascii "source_path", .string read.path),
          (ascii "offset", signedJSON read.offset), (ascii "length", signedJSON read.length),
          (ascii "status", signedJSON read.status),
          (ascii "returned_bytes", numberJSON read.output.length),
          (ascii "returned_sha256", .string (digest read.output))]⟩)
      { e with files := e.files.put file read.output }

/-- The name is that of a content: `read-*.bin`. -/
def isReadFile (name : Bytes) : Bool :=
  (ascii "read-").isPrefixOf name && (ascii ".bin").isSuffixOf name

/-- An entry is the one of its place, and its file holds what it says. -/
def verifiable (files : Named Bytes) (entry : SourceReadEntry) (index : ℕ) : Bool :=
  entry.sequence = index + 1 ∧ entry.contentFile = readFile entry.sequence ∧
    ∃ content ∈ files.entry entry.contentFile, entry.returnedBytes = content.length ∧
      entry.sha256 = digest content

def allSourceReadsAreVerifiable (e : ReviewEvidence) : Bool :=
  let reads := e.manifest.sourceReads
  let actualFiles := e.files.names.filter isReadFile
  reads.zipIdx.all (fun entry => verifiable digest e.files entry.1 entry.2) &&
    actualFiles.length = reads.length &&
    reads.all fun entry => actualFiles.contains entry.contentFile

def complete (writes : ReviewWrites) (outcome : Bytes) (e : ReviewEvidence) : ReviewPerformed :=
  let whole := !e.irrecoverablyIncomplete && e.allSourceReadsAreVerifiable digest
  let m := { e.manifest with
    stage := .completed, reviewOutcome := outcome, evidenceComplete := whole,
    captureOutcome := if whole then .complete else .incomplete }
  e.update writes m none

end ReviewEvidence

inductive ReviewCall
  | recordYieldRequested (origin : ReviewYieldOrigin)
  | recordAwaitingReview (snapshot originStatus : Bytes)
  | recordReviewResult (outcome result : Bytes)
  | recordReviewerTurn (threadID turnID : Bytes)
  | recordContinuationStarted (turnID : Bytes)
  | recordContinuationFinished (status : Bytes)
  | recordSourceRead (read : SourceRead)
  | complete (outcome : Bytes)

def ReviewEvidence.perform (digest : Bytes → Bytes) (e : ReviewEvidence) (writes : ReviewWrites) :
    ReviewCall → ReviewPerformed
  | .recordYieldRequested origin => e.recordYieldRequested digest writes origin
  | .recordAwaitingReview snapshot status => e.recordAwaitingReview digest writes snapshot status
  | .recordReviewResult outcome result => e.recordReviewResult digest writes outcome result
  | .recordReviewerTurn threadID turnID => e.recordReviewerTurn writes threadID turnID
  | .recordContinuationStarted turnID => e.recordContinuationStarted writes turnID
  | .recordContinuationFinished status => e.recordContinuationFinished writes status
  | .recordSourceRead read => e.recordSourceRead digest writes read
  | .complete outcome => e.complete digest writes outcome

/-- What calls do, one after the other. -/
def ReviewEvidence.performAll (digest : Bytes → Bytes) (e : ReviewEvidence)
    (calls : List (ReviewWrites × ReviewCall)) : ReviewEvidence :=
  calls.foldl (fun e call => (e.perform digest call.1 call.2).evidence) e

/-! ### What one call does -/

namespace ReviewEvidence

/-- The contents that were read are the same. -/
def SameReads (files files' : Named Bytes) : Prop :=
  ∀ name, isReadFile name = true → files'.entry name = files.entry name

/-- How a call carries the continuation on: it leaves it alone, starts the one that has not started,
or ends the one that is active. -/
inductive Continues (m m' : ReviewManifest) : ReviewCall → Option ReviewEvent → Prop
  | kept {call : ReviewCall} {event : Option ReviewEvent}
      (turnID : m'.continuationTurnID = m.continuationTurnID)
      (status : m'.continuationStatus = m.continuationStatus)
      (stage : m'.stage = .resuming → m.stage = .resuming)
      (other : ∀ turnID, call ≠ .recordContinuationStarted turnID)
      (silent : ∀ e ∈ event, e.name ≠ resumingEvent) : Continues m m' call event
  | started {turnID : Bytes} {event : Option ReviewEvent} (fresh : m.continuationTurnID = none)
      (recorded : m'.continuationTurnID = some turnID)
      (status : m'.continuationStatus = m.continuationStatus) :
      Continues m m' (.recordContinuationStarted turnID) event
  | finished {status : Bytes} {event : Option ReviewEvent} (active : m.stage = .resuming)
      (turnID : m'.continuationTurnID = m.continuationTurnID) (ended : m'.stage = .completed)
      (silent : ∀ e ∈ event, e.name ≠ resumingEvent) :
      Continues m m' (.recordContinuationFinished status) event

/-- **What one call does.** -/
inductive ReviewEffect (digest : Bytes → Bytes) (e : ReviewEvidence) (writes : ReviewWrites) :
    ReviewCall → ReviewPerformed → Prop
  /-- Nothing is recorded, but a text may have been written. -/
  | refused {call : ReviewCall} {files : Named Bytes} {error : ReviewError}
      (same : SameReads e.files files) (guard : ∀ name, error ≠ .write name)
      (other : ∀ read, call ≠ .recordSourceRead read) :
      ReviewEffect digest e writes call (refused error { e with files := files })
  /-- A content could not be written. -/
  | failed {call : ReviewCall} {files : Named Bytes} {file : Bytes}
      (same : SameReads e.files files) (content : file ≠ manifestFile)
      (other : ∀ turnID, call ≠ .recordContinuationStarted turnID) :
      ReviewEffect digest e writes call
        (markCaptureIncomplete writes file { e with files := files })
  /-- The manifest changes, and with it nothing of the reads. -/
  | updated {call : ReviewCall} {files : Named Bytes} {m : ReviewManifest}
      {event : Option ReviewEvent} (same : SameReads e.files files)
      (reads : m.sourceReads = e.manifest.sourceReads)
      (honest : m.evidenceComplete = true →
        e.manifest.evidenceComplete = true ∨ e.irrecoverablyIncomplete = false)
      (continues : Continues e.manifest m call event)
      (other : ∀ read, call ≠ .recordSourceRead read) :
      ReviewEffect digest e writes call (update writes m event { e with files := files })
  /-- A read is recorded behind its content. -/
  | read {read : SourceRead} {event : ReviewEvent} (silent : event.name ≠ resumingEvent) :
      ReviewEffect digest e writes (.recordSourceRead read)
        (update writes (withRead digest e.manifest read) (some event)
          { e with files :=
            e.files.put (readFile (e.manifest.sourceReads.length + 1)) read.output })

variable {digest : Bytes → Bytes} {e : ReviewEvidence} {writes : ReviewWrites} {call : ReviewCall}

theorem SameReads.refl (files : Named Bytes) : SameReads files files := fun _ _ => rfl

theorem SameReads.put {files files'} (h : SameReads files files') {name : Bytes}
    (hname : isReadFile name = false) (content : Bytes) :
    SameReads files (files'.put name content) := by
  intro other hother
  have hne : other ≠ name := by
    rintro rfl
    exact absurd (hother.symm.trans hname) (by decide)
  exact (Named.entry_put_of_ne hne content files').trans (h other hother)

/-- What writing texts does: they are written, or the call that writes them has its effect. -/
def Writes {α : Type} (digest : Bytes → Bytes) (writes : ReviewWrites) (e : ReviewEvidence)
    (call : ReviewCall) (texts : Except ReviewPerformed (α × ReviewEvidence)) : Prop :=
  match texts with
  | .error performed => ReviewEffect digest e writes call performed
  | .ok (_, e') => ∃ files, e' = { e with files := files } ∧ SameReads e.files files

theorem writes_privateText {files} (hsame : SameReads e.files files)
    (hread : ∀ read, call ≠ .recordSourceRead read)
    (hstart : ∀ turnID, call ≠ .recordContinuationStarted turnID) (written : Bool) {file : Bytes}
    (hfile : isReadFile file = false) (hcontent : file ≠ manifestFile) (value : Option Bytes) :
    Writes digest writes e call
      (writePrivateText digest writes written file value { e with files := files }) := by
  unfold writePrivateText
  dsimp only
  split_ifs
  · exact .refused hsame nofun hread
  · exact ⟨_, rfl, hsame.put hfile _⟩
  · exact .failed hsame hcontent hstart

theorem Writes.bind {α β : Type}
    {texts : Except ReviewPerformed (α × ReviewEvidence)} (h : Writes digest writes e call texts)
    {next : α × ReviewEvidence → Except ReviewPerformed (β × ReviewEvidence)}
    (hnext : ∀ text files, SameReads e.files files →
      Writes digest writes e call (next (text, { e with files := files }))) :
    Writes digest writes e call (texts >>= next) := by
  cases texts with
  | error performed => exact h
  | ok result =>
    obtain ⟨text, e'⟩ := result
    obtain ⟨files, rfl, hsame⟩ := h
    exact hnext text files hsame

theorem writes_yieldTexts (digest : Bytes → Bytes) (e : ReviewEvidence) (writes : ReviewWrites)
    (origin : ReviewYieldOrigin) :
    Writes digest writes e (.recordYieldRequested origin)
      (writeYieldTexts digest writes origin e) := by
  have hrequest {files : Named Bytes} (hsame : SameReads e.files files) :
      Writes digest writes e (.recordYieldRequested origin) (writePrivateText digest writes
        writes.request requestFile origin.request { e with files := files }) :=
    writes_privateText hsame (by nofun) (by nofun) _ (by decide) (by decide) _
  have hproposal {files : Named Bytes} (hsame : SameReads e.files files) :
      Writes digest writes e (.recordYieldRequested origin) (writePrivateText digest writes
        writes.proposal proposedFile origin.proposal { e with files := files }) :=
    writes_privateText hsame (by nofun) (by nofun) _ (by decide) (by decide) _
  unfold writeYieldTexts
  split_ifs
  · exact (hproposal (SameReads.refl _)).bind fun proposal files hsame =>
      (hrequest hsame).bind fun request files hsame => ⟨files, rfl, hsame⟩
  · exact (hrequest (SameReads.refl _)).bind fun request files hsame =>
      (hproposal hsame).bind fun proposal files hsame => ⟨files, rfl, hsame⟩

theorem silent_yieldEvent {event : Bytes} (h : event ≠ resumingEvent) (extra : List (Bytes × Value))
    (m : ReviewManifest) : ∀ e ∈ some (recordYieldEvent event extra m), e.name ≠ resumingEvent := by
  rintro _ ⟨⟩
  exact h

theorem effect_refused {error}
    (guard : ∀ name, error ≠ .write name) (other : ∀ read, call ≠ .recordSourceRead read) :
    ReviewEffect digest e writes call (e.refused error) :=
  .refused (SameReads.refl _) guard other

theorem effect_recordYieldRequested (origin : ReviewYieldOrigin) :
    ReviewEffect digest e writes (.recordYieldRequested origin)
      (e.recordYieldRequested digest writes origin) := by
  unfold recordYieldRequested
  dsimp only
  split_ifs with hempty hstage hencoding
  iterate 3 exact effect_refused nofun nofun
  have hwrites := writes_yieldTexts digest e writes origin
  split
  · rename_i performed htexts
    rwa [htexts] at hwrites
  rename_i request proposal e' htexts
  rw [htexts] at hwrites
  obtain ⟨files, rfl, hsame⟩ := hwrites
  exact .updated hsame rfl .inl
    (.kept rfl rfl nofun nofun (silent_yieldEvent (by decide) _ _)) nofun

theorem effect_recordAwaitingReview (snapshot status : Bytes) :
    ReviewEffect digest e writes (.recordAwaitingReview snapshot status)
      (e.recordAwaitingReview digest writes snapshot status) := by
  unfold recordAwaitingReview
  split_ifs
  iterate 2 exact effect_refused nofun nofun
  · exact .failed (SameReads.refl _) (by decide) nofun
  · exact .updated ((SameReads.refl _).put (by decide) _) rfl .inl
      (.kept rfl rfl nofun nofun (silent_yieldEvent (by decide) _ _)) nofun

/-- The result of a review takes no read away, and never makes the evidence complete. -/
theorem withResult_reads (m : ReviewManifest) (outcome : Bytes) (result : PrivateText) :
    (withResult m outcome result).sourceReads = m.sourceReads ∧
      ((withResult m outcome result).evidenceComplete = true → m.evidenceComplete = true) ∧
      (withResult m outcome result).continuationTurnID = m.continuationTurnID ∧
      (withResult m outcome result).continuationStatus = m.continuationStatus ∧
      (withResult m outcome result).stage ≠ .resuming := by
  unfold withResult
  dsimp only
  split_ifs
  · exact ⟨rfl, nofun, rfl, rfl, nofun⟩
  · exact ⟨rfl, id, rfl, rfl, nofun⟩

theorem effect_recordReviewResult (outcome result : Bytes) :
    ReviewEffect digest e writes (.recordReviewResult outcome result)
      (e.recordReviewResult digest writes outcome result) := by
  unfold recordReviewResult
  split_ifs
  iterate 2 exact effect_refused nofun nofun
  have hwrites : Writes digest writes e (.recordReviewResult outcome result)
      (e.writePrivateText digest writes writes.content resultFile (some result)) :=
    writes_privateText (SameReads.refl _) (by nofun) (by nofun) _ (by decide) (by decide) _
  split
  · rename_i performed htexts
    rwa [htexts] at hwrites
  rename_i text e' htexts
  rw [htexts] at hwrites
  obtain ⟨files, rfl, hsame⟩ := hwrites
  obtain ⟨hreads, hcomplete, hturn, hstatus, hstage⟩ := withResult_reads e.manifest outcome text
  exact .updated hsame hreads (fun h => .inl (hcomplete h)) (.kept hturn hstatus
    (fun h => absurd h hstage) nofun (silent_yieldEvent (by decide) _ _)) nofun

theorem effect_recordReviewerTurn (threadID turnID : Bytes) :
    ReviewEffect digest e writes (.recordReviewerTurn threadID turnID)
      (e.recordReviewerTurn writes threadID turnID) := by
  unfold recordReviewerTurn
  split_ifs
  iterate 2 exact effect_refused nofun nofun
  · exact .updated (SameReads.refl _) rfl .inl
      (.kept rfl rfl id nofun (silent_yieldEvent (by decide) _ _)) nofun

theorem effect_recordContinuationStarted (turnID : Bytes) :
    ReviewEffect digest e writes (.recordContinuationStarted turnID)
      (e.recordContinuationStarted writes turnID) := by
  unfold recordContinuationStarted
  split_ifs with hinvalid hstage hstarted
  iterate 3 exact effect_refused nofun nofun
  · exact .updated (SameReads.refl _) rfl .inl
      (.started (by simpa using hstarted) rfl rfl) nofun

theorem effect_recordContinuationFinished (status : Bytes) :
    ReviewEffect digest e writes (.recordContinuationFinished status)
      (e.recordContinuationFinished writes status) := by
  unfold recordContinuationFinished
  split_ifs with hstatus hstage
  iterate 2 exact effect_refused nofun nofun
  · exact .updated (SameReads.refl _) rfl .inl
      (.finished (not_not.mp hstage) rfl rfl (silent_yieldEvent (by decide) _ _)) nofun

theorem readFile_isReadFile (sequence : ℕ) : isReadFile (readFile sequence) = true := by
  have hfront : ascii "read-" <+: readFile sequence := by
    rw [readFile, Wire.numbered, append_assoc]
    exact prefix_append _ _
  have hback : ascii ".bin" <:+ readFile sequence := suffix_append _ _
  rw [isReadFile, isPrefixOf_iff_prefix.mpr hfront, isSuffixOf_iff_suffix.mpr hback]
  rfl

theorem readFile_ne_manifestFile (sequence : ℕ) : readFile sequence ≠ manifestFile := by
  intro h
  have := readFile_isReadFile sequence
  rw [h] at this
  revert this
  decide

theorem effect_recordSourceRead (read : SourceRead) :
    ReviewEffect digest e writes (.recordSourceRead read)
      (e.recordSourceRead digest writes read) := by
  unfold recordSourceRead
  dsimp only
  split_ifs
  · exact .failed (SameReads.refl _) (readFile_ne_manifestFile _) nofun
  · exact .read (show ascii "review_source_read" ≠ resumingEvent by decide)

theorem effect_complete (outcome : Bytes) :
    ReviewEffect digest e writes (.complete outcome) (e.complete digest writes outcome) := by
  refine .updated (SameReads.refl _) rfl (fun h => .inr ?_) (.kept rfl rfl nofun nofun nofun) nofun
  simp only [Bool.and_eq_true, Bool.not_eq_true'] at h
  exact h.1

/-- **Every call has one of the effects.** -/
theorem perform_effect (digest : Bytes → Bytes) (e : ReviewEvidence) (writes : ReviewWrites)
    (call : ReviewCall) : ReviewEffect digest e writes call (e.perform digest writes call) := by
  cases call with
  | recordYieldRequested origin => exact effect_recordYieldRequested origin
  | recordAwaitingReview snapshot status => exact effect_recordAwaitingReview snapshot status
  | recordReviewResult outcome result => exact effect_recordReviewResult outcome result
  | recordReviewerTurn threadID turnID => exact effect_recordReviewerTurn threadID turnID
  | recordContinuationStarted turnID => exact effect_recordContinuationStarted turnID
  | recordContinuationFinished status => exact effect_recordContinuationFinished status
  | recordSourceRead read => exact effect_recordSourceRead read
  | complete outcome => exact effect_complete outcome

theorem isReadFile_manifestFile : isReadFile manifestFile = false := by decide

theorem readFile_injective : Function.Injective readFile := numbered_injective _ _ _

/-! ### The contents -/

/-- What the manifest lists of the reads. -/
def entriesOf (digest : Bytes → Bytes) (reads : List SourceRead) : List SourceReadEntry :=
  (reads.zipIdx 1).map fun read => readEntry digest read.2 read.1

theorem length_entriesOf (digest : Bytes → Bytes) (reads : List SourceRead) :
    (entriesOf digest reads).length = reads.length := by simp [entriesOf]

theorem entriesOf_concat (digest : Bytes → Bytes) (reads : List SourceRead) (read : SourceRead) :
    entriesOf digest (reads ++ [read]) =
      entriesOf digest reads ++ [readEntry digest (reads.length + 1) read] := by
  simp [entriesOf, zipIdx_append, Nat.add_comm]

/-- **The contents are those of the reads**: the manifest lists them in order, each has its file,
and no other file has the name of a content. Complete evidence is not claimed behind a content that
could not be written. -/
structure Captured (digest : Bytes → Bytes) (reads : List SourceRead) (e : ReviewEvidence) :
    Prop where
  entries : e.manifest.sourceReads = entriesOf digest reads
  contents : ∀ i read, reads[i]? = some read → e.files.entry (readFile (i + 1)) = some read.output
  others : ∀ name, isReadFile name = true → e.files.entry name ≠ none →
    ∃ i < reads.length, name = readFile (i + 1)
  honest : e.manifest.evidenceComplete = true → e.irrecoverablyIncomplete = false

/-- The reads that a call passes. -/
def readsOf : ReviewCall → List SourceRead
  | .recordSourceRead read => [read]
  | _ => []

variable {reads : List SourceRead} {call : ReviewCall} {performed : ReviewPerformed}
  {m : ReviewManifest}

theorem readsOf_eq_nil (h : ∀ read, call ≠ .recordSourceRead read) : readsOf call = [] := by
  cases call with
  | recordSourceRead read => exact absurd rfl (h read)
  | _ => rfl

/-- The manifest and the files, where only files that are no contents have changed. -/
theorem Captured.of_same (h : Captured digest reads e) {files} (hsame : SameReads e.files files)
    (hreads : m.sourceReads = e.manifest.sourceReads) {incomplete : Bool}
    (hhonest : m.evidenceComplete = true → incomplete = false) :
    Captured digest reads ⟨m, files, incomplete⟩ :=
  ⟨hreads.trans h.entries,
    fun i read hread => (hsame _ (readFile_isReadFile _)).trans (h.contents i read hread),
    fun name hname hentry =>
      h.others name hname fun hnone => hentry ((hsame name hname).trans hnone),
    hhonest⟩

/-- Publishing the manifest changes no content. -/
theorem Captured.update (h : Captured digest reads { e with manifest := m }) (writes : ReviewWrites)
    (event : Option ReviewEvent) : Captured digest reads (e.update writes m event).evidence := by
  unfold ReviewEvidence.update
  split_ifs
  · exact h.of_same ((SameReads.refl _).put isReadFile_manifestFile _) rfl h.honest
  · exact h

theorem Captured.concat (h : Captured digest reads e) (read : SourceRead) :
    Captured digest (reads ++ [read]) ⟨withRead digest e.manifest read,
      e.files.put (readFile (e.manifest.sourceReads.length + 1)) read.output,
      e.irrecoverablyIncomplete⟩ := by
  have hlength : e.manifest.sourceReads.length = reads.length := by
    rw [h.entries, length_entriesOf]
  rw [hlength]
  refine ⟨?_, fun i other hother => ?_, fun name hname hentry => ?_, h.honest⟩
  · rw [entriesOf_concat, withRead, h.entries, length_entriesOf]
  · rcases lt_trichotomy i reads.length with hlt | rfl | hgt
    · rw [getElem?_append_left hlt] at hother
      have hne : readFile (i + 1) ≠ readFile (reads.length + 1) := fun heq => by
        have := readFile_injective heq
        omega
      exact (Named.entry_put_of_ne hne _ _).trans (h.contents i other hother)
    · rw [getElem?_concat_length] at hother
      cases hother
      exact Named.entry_put _ _ _
    · rw [getElem?_eq_none (by simp; omega)] at hother
      cases hother
  · rw [length_append, length_singleton]
    by_cases hlast : name = readFile (reads.length + 1)
    · exact ⟨reads.length, by omega, hlast⟩
    obtain ⟨i, hi, hfile⟩ := h.others name hname
      (by rwa [← Named.entry_put_of_ne hlast read.output e.files])
    exact ⟨i, by omega, hfile⟩

@[simp] theorem update_manifest (e : ReviewEvidence) (writes : ReviewWrites) (m : ReviewManifest)
    (event : Option ReviewEvent) : (e.update writes m event).evidence.manifest = m := by
  unfold update
  split_ifs <;> rfl

@[simp] theorem update_incomplete (e : ReviewEvidence) (writes : ReviewWrites) (m : ReviewManifest)
    (event : Option ReviewEvent) :
    (e.update writes m event).evidence.irrecoverablyIncomplete = e.irrecoverablyIncomplete := by
  unfold update
  split_ifs <;> rfl

/-- **Every call keeps the contents**, and records what it was passed unless the evidence is
incomplete for good. -/
theorem Captured.step (h : Captured digest reads e)
    (heffect : ReviewEffect digest e writes call performed) :
    ∃ reads', Captured digest reads' performed.evidence ∧
      (performed.evidence.irrecoverablyIncomplete = false → reads' = reads ++ readsOf call) := by
  cases heffect with
  | refused same guard other =>
    refine ⟨reads, h.of_same same rfl h.honest, fun _ => ?_⟩
    rw [readsOf_eq_nil other, append_nil]
  | @failed _ files file same content other =>
    have hmarked : Captured digest reads ⟨marked e.manifest, files, true⟩ :=
      h.of_same same (show (marked e.manifest).sourceReads = _ from rfl) (by nofun)
    refine ⟨reads, Captured.update hmarked writes none, fun hwhole => ?_⟩
    rw [markCaptureIncomplete, update_incomplete] at hwhole
    cases hwhole
  | updated same hreads honest continues other =>
    have hhonest := fun hwhole => (honest hwhole).elim h.honest id
    refine ⟨reads, (h.of_same same hreads hhonest).update writes _, fun _ => ?_⟩
    rw [readsOf_eq_nil other, append_nil]
  | read silent => exact ⟨_, (h.concat _).update writes _, fun _ => rfl⟩

section

variable (heffect : ReviewEffect digest e writes call performed)
include heffect

theorem ReviewEffect.incomplete
    (h : e.irrecoverablyIncomplete = true) : performed.evidence.irrecoverablyIncomplete = true := by
  cases heffect with
  | refused => exact h
  | failed => exact update_incomplete _ _ _ _
  | updated | read => exact (update_incomplete _ _ _ _).trans h

/-- A content that could not be written makes the evidence incomplete for good. -/
theorem ReviewEffect.incomplete_of_error
    {name : Bytes} (hname : name ≠ manifestFile) (h : performed.result = .error (.write name)) :
    performed.evidence.irrecoverablyIncomplete = true := by
  have hupdate (e : ReviewEvidence) (m : ReviewManifest) (event : Option ReviewEvent) :
      (e.update writes m event).result ≠ .error (.write name) := by
    unfold update
    split_ifs
    · nofun
    · exact fun h => hname (ReviewError.write.inj (Except.error.inj h)).symm
  cases heffect with
  | refused same guard other =>
    cases h
    exact absurd rfl (guard name)
  | failed => exact update_incomplete _ _ _ _
  | updated | read => exact absurd h (hupdate _ _ _)

/-- What is published is the manifest in memory. -/
theorem ReviewEffect.published
    (h : performed.published = some m) : performed.evidence.manifest = m := by
  have hupdate (e : ReviewEvidence) (m' : ReviewManifest) (event : Option ReviewEvent)
      (h : (e.update writes m' event).published = some m) : m' = m := by
    unfold update at h
    split_ifs at h
    exact Option.some.inj h
  cases heffect with
  | refused => cases h
  | failed | updated | read => exact (update_manifest _ _ _ _).trans (hupdate _ _ _ h)

end

/-! ### The continuation -/

/-- A continuation that is active or over has started. -/
structure Continued (m : ReviewManifest) : Prop where
  active : m.stage = .resuming → m.continuationTurnID ≠ none
  finished : m.continuationStatus ≠ none → m.continuationTurnID ≠ none

theorem Continues.continued {m m' event} (h : Continued m)
    (hcontinues : Continues m m' call event) : Continued m' := by
  cases hcontinues with
  | kept turnID status stage =>
    exact ⟨fun hstage => turnID ▸ h.active (stage hstage),
      fun hstatus => turnID ▸ h.finished (status ▸ hstatus)⟩
  | started fresh recorded status =>
    have hstarted : m'.continuationTurnID ≠ none := by rw [recorded]; nofun
    exact ⟨fun _ => hstarted, fun _ => hstarted⟩
  | finished active turnID ended =>
    have hstarted : m'.continuationTurnID ≠ none := turnID ▸ h.active active
    exact ⟨fun _ => hstarted, fun _ => hstarted⟩

/-- Every call keeps the continuation, and one that has started stays the only one. -/
theorem ReviewEffect.continues (heffect : ReviewEffect digest e writes call performed)
    (h : Continued e.manifest) : Continued performed.evidence.manifest ∧
      ∀ turnID, e.manifest.continuationTurnID = some turnID →
        performed.evidence.manifest.continuationTurnID = some turnID ∧
          (∀ event ∈ performed.event, event.name ≠ resumingEvent) ∧
          ∀ other, call = .recordContinuationStarted other →
            performed.published = none ∧ performed.result ≠ .ok () := by
  -- the event of an update is the one that it was given
  have hevent (e : ReviewEvidence) (m : ReviewManifest) (event : Option ReviewEvent)
      (hsilent : ∀ recorded ∈ event, recorded.name ≠ resumingEvent) :
      ∀ recorded ∈ (e.update writes m event).event, recorded.name ≠ resumingEvent := by
    unfold update
    split_ifs
    · exact hsilent
    · nofun
  cases heffect with
  | refused => exact ⟨h, fun turnID hturn => ⟨hturn, nofun, fun other hother => ⟨rfl, nofun⟩⟩⟩
  | failed same content other =>
    refine ⟨?_, fun turnID hturn => ⟨?_, hevent _ _ none nofun, fun next hnext => ?_⟩⟩
    · rw [markCaptureIncomplete, update_manifest]
      exact ⟨h.active, h.finished⟩
    · rw [markCaptureIncomplete, update_manifest]
      exact hturn
    · exact absurd hnext (other next)
  | updated same hreads honest continues other =>
    rw [update_manifest]
    refine ⟨continues.continued h, fun turnID hturn => ?_⟩
    cases continues with
    | kept hkept hstatus hstage hother hsilent =>
      exact ⟨hkept.trans hturn, hevent _ _ _ hsilent, fun next hnext => absurd hnext (hother next)⟩
    | started fresh => exact absurd (fresh.symm.trans hturn) nofun
    | finished active hkept ended hsilent =>
      exact ⟨hkept.trans hturn, hevent _ _ _ hsilent, nofun⟩
  | read silent =>
    rw [update_manifest]
    refine ⟨⟨nofun, h.finished⟩, fun turnID hturn => ⟨hturn, hevent _ _ _ ?_, nofun⟩⟩
    rintro _ ⟨⟩
    exact silent

/-! ### Every sequence of calls -/

/-- The reads that calls pass. -/
def readsOfAll (calls : List (ReviewWrites × ReviewCall)) : List SourceRead :=
  calls.flatMap fun call => readsOf call.2

theorem performAll_concat (digest : Bytes → Bytes) (e : ReviewEvidence)
    (calls : List (ReviewWrites × ReviewCall)) (writes : ReviewWrites) (call : ReviewCall) :
    e.performAll digest (calls ++ [(writes, call)]) =
      ((e.performAll digest calls).perform digest writes call).evidence := by
  simp [performAll]

theorem captured_beginReview (digest : Bytes → Bytes) (generation : UInt64) (reviewID : Bytes)
    (identity : Option HarnessIdentity) :
    Captured digest [] (beginReview generation reviewID identity) := by
  refine ⟨rfl, nofun, fun name hname hentry => ?_, nofun⟩
  by_cases hmanifest : name = manifestFile
  · rw [hmanifest, isReadFile_manifestFile] at hname
    cases hname
  · refine absurd ?_ hentry
    exact Named.entry_eq_none.mpr (by simpa [beginReview, Named.names] using hmanifest)

theorem continued_beginReview (generation : UInt64) (reviewID : Bytes)
    (identity : Option HarnessIdentity) :
    Continued (beginReview generation reviewID identity).manifest := ⟨nofun, fun h => absurd rfl h⟩

/-- In every run the contents are those of the reads; of all of them, unless one of them could not
be written. -/
theorem captured_performAll (digest : Bytes → Bytes) (generation : UInt64) (reviewID : Bytes)
    (identity : Option HarnessIdentity) (calls : List (ReviewWrites × ReviewCall)) :
    ∃ reads,
      Captured digest reads ((beginReview generation reviewID identity).performAll digest calls) ∧
      (((beginReview generation reviewID identity).performAll digest
        calls).irrecoverablyIncomplete = false → reads = readsOfAll calls) := by
  induction calls using List.reverseRecOn with
  | nil => exact ⟨[], captured_beginReview .., fun _ => rfl⟩
  | append_singleton calls last ih =>
    obtain ⟨writes, call⟩ := last
    obtain ⟨reads, hcaptured, hreads⟩ := ih
    have heffect := perform_effect digest
      ((beginReview generation reviewID identity).performAll digest calls) writes call
    obtain ⟨reads', hcaptured, hreads'⟩ := hcaptured.step heffect
    rw [performAll_concat]
    refine ⟨reads', hcaptured, fun hwhole => ?_⟩
    have hbefore : ((beginReview generation reviewID identity).performAll digest
        calls).irrecoverablyIncomplete = false := by
      by_contra hincomplete
      have hafter := heffect.incomplete (by simpa using hincomplete)
      exact absurd (hafter.symm.trans hwhole) (by decide)
    rw [hreads' hwhole, hreads hbefore]
    simp [readsOfAll]

theorem Captured.performAll (h : Captured digest reads e)
    (calls : List (ReviewWrites × ReviewCall)) :
    ∃ reads', Captured digest reads' (e.performAll digest calls) := by
  induction calls generalizing e reads with
  | nil => exact ⟨reads, h⟩
  | cons call calls ih =>
    obtain ⟨reads', h, -⟩ := h.step (perform_effect digest e call.1 call.2)
    exact ih h

/-- Evidence that is incomplete for good is not published as complete. -/
theorem Captured.incomplete (h : Captured digest reads performed.evidence)
    (heffect : ReviewEffect digest e writes call performed)
    (hincomplete : performed.evidence.irrecoverablyIncomplete = true)
    (hm : performed.published = some m) : m.evidenceComplete = false := by
  obtain rfl := heffect.published hm
  by_contra hwhole
  have hfalse := h.honest (by simpa using hwhole)
  exact absurd (hincomplete.symm.trans hfalse) (by decide)

theorem continued_performAll (h : Continued e.manifest) (calls : List (ReviewWrites × ReviewCall)) :
    Continued (e.performAll digest calls).manifest := by
  induction calls generalizing e with
  | nil => exact h
  | cons call calls ih => exact ih ((perform_effect digest e call.1 call.2).continues h).1

theorem incomplete_performAll (h : e.irrecoverablyIncomplete = true)
    (calls : List (ReviewWrites × ReviewCall)) :
    (e.performAll digest calls).irrecoverablyIncomplete = true := by
  induction calls generalizing e with
  | nil => exact h
  | cons call calls ih => exact ih ((perform_effect digest e call.1 call.2).incomplete h)

/-! ### What is recorded -/

/-- **What a manifest that claims complete evidence lists**: the reads that were passed, numbered
without gaps, each with the digest and the size of its content; and the files of contents are those
that it lists. -/
structure CompleteEvidence (digest : Bytes → Bytes) (reads : List SourceRead) (files : Named Bytes)
    (m : ReviewManifest) : Prop where
  entries : m.sourceReads = entriesOf digest reads
  numbered : m.sourceReads.map SourceReadEntry.sequence = List.range' 1 m.sourceReads.length
  named : ∀ name, isReadFile name = true →
    (files.entry name ≠ none ↔ name ∈ m.sourceReads.map SourceReadEntry.contentFile)
  contents : ∀ (i : ℕ) (read : SourceRead), reads[i]? = some read →
    ∃ entry : SourceReadEntry, m.sourceReads[i]? = some entry ∧
      files.entry entry.contentFile = some read.output ∧ entry.sha256 = digest read.output ∧
      entry.returnedBytes = read.output.length

theorem sequence_entriesOf (digest : Bytes → Bytes) (reads : List SourceRead) :
    (entriesOf digest reads).map SourceReadEntry.sequence = List.range' 1 reads.length := by
  rw [entriesOf, map_map]
  exact zipIdx_map_snd 1 reads

theorem getElem_entriesOf (digest : Bytes → Bytes) (reads : List SourceRead) (i : ℕ) :
    (entriesOf digest reads)[i]? = reads[i]?.map (readEntry digest (i + 1)) := by
  simp [entriesOf, getElem?_zipIdx, Option.map_map, Function.comp_def, Nat.add_comm]

theorem Captured.complete (h : Captured digest reads e) :
    CompleteEvidence digest reads e.files e.manifest := by
  refine ⟨h.entries, ?_, fun name hname => ⟨fun hentry => ?_, fun hmem => ?_⟩,
    fun i read hread => ?_⟩
  · rw [h.entries, sequence_entriesOf, length_entriesOf]
  · obtain ⟨i, hi, rfl⟩ := h.others name hname hentry
    rw [h.entries]
    refine mem_map.mpr ⟨readEntry digest (i + 1) reads[i], ?_, rfl⟩
    refine mem_of_getElem? (i := i) ?_
    rw [getElem_entriesOf, getElem?_eq_getElem hi]
    rfl
  · obtain ⟨entry, hentry, rfl⟩ := mem_map.mp hmem
    obtain ⟨i, hi⟩ := getElem?_of_mem hentry
    rw [h.entries, getElem_entriesOf] at hi
    obtain ⟨read, hread, rfl⟩ := Option.map_eq_some_iff.mp hi
    exact fun hnone => absurd ((h.contents i read hread).symm.trans hnone) nofun
  · refine ⟨readEntry digest (i + 1) read, ?_, h.contents i read hread, rfl, rfl⟩
    rw [h.entries, getElem_entriesOf, hread]
    rfl

/-- **What is recorded of a review.** Over every sequence of calls on the evidence of a review,
whichever writes fail: a manifest that is published with complete evidence lists the reads that were
passed and the files that are there; behind a content that could not be written, no manifest claims
complete evidence; and a continuation starts once, and is over only behind its start. -/
theorem review_recorded (digest : Bytes → Bytes) (generation : UInt64) (reviewID : Bytes)
    (identity : Option HarnessIdentity) (calls : List (ReviewWrites × ReviewCall))
    (writes : ReviewWrites) (call : ReviewCall) {before : ReviewEvidence} {after : ReviewPerformed}
    (hbefore : (beginReview generation reviewID identity).performAll digest calls = before)
    (hafter : before.perform digest writes call = after) :
    (∀ m, after.published = some m → m.evidenceComplete = true →
        CompleteEvidence digest (readsOfAll (calls ++ [(writes, call)])) after.evidence.files m) ∧
      (∀ name, name ≠ manifestFile → after.result = .error (.write name) →
        (∀ m, after.published = some m → m.evidenceComplete = false) ∧
          ∀ later writes' call' m,
            ((after.evidence.performAll digest later).perform digest writes' call').published =
              some m → m.evidenceComplete = false) ∧
      (∀ turnID, before.manifest.continuationTurnID = some turnID →
        after.evidence.manifest.continuationTurnID = some turnID ∧
          (∀ event ∈ after.event, event.name ≠ resumingEvent) ∧
          ∀ other, call = .recordContinuationStarted other →
            after.published = none ∧ after.result ≠ .ok ()) ∧
      ∀ m, after.published = some m → m.continuationStatus ≠ none →
        m.continuationTurnID ≠ none := by
  have hrun : (beginReview generation reviewID identity).performAll digest
      (calls ++ [(writes, call)]) = after.evidence := by rw [performAll_concat, hbefore, hafter]
  have heffect : ReviewEffect digest before writes call after :=
    hafter ▸ perform_effect digest before writes call
  have hcontinued := heffect.continues
    (hbefore ▸ continued_performAll (continued_beginReview generation reviewID identity) calls)
  obtain ⟨reads, hreads, hall⟩ :=
    captured_performAll digest generation reviewID identity (calls ++ [(writes, call)])
  rw [hrun] at hreads hall
  refine ⟨fun m hm hwhole => ?_, fun name hname herror => ?_, hcontinued.2, fun m hm => ?_⟩
  · obtain rfl := heffect.published hm
    rw [← hall (hreads.honest hwhole)]
    exact hreads.complete
  · have hincomplete := heffect.incomplete_of_error hname herror
    refine ⟨fun m hm => hreads.incomplete heffect hincomplete hm,
      fun later writes' call' m hm => ?_⟩
    -- the calls that follow keep the contents, and leave the evidence incomplete
    obtain ⟨_, hlater⟩ := hreads.performAll later
    have heffect' := perform_effect digest (after.evidence.performAll digest later) writes' call'
    obtain ⟨_, hafter, -⟩ := hlater.step heffect'
    exact hafter.incomplete heffect' (heffect'.incomplete (incomplete_performAll hincomplete later))
      hm
  · obtain rfl := heffect.published hm
    exact hcontinued.1.finished

/-- Every write is done. -/
def allWritten : ReviewWrites := ⟨true, true, true, true, false⟩

/-- The content of a read cannot be written. -/
def contentFails : ReviewWrites := ⟨true, true, false, true, false⟩

def twoBytes : SourceRead := ⟨ascii "main.c", 0, 2, 0, ascii "ab"⟩

/-- A review with one read is completed, and its evidence is complete. Where the content of a second
read could not be written, no manifest that follows says so. -/
theorem review_recorded_completed :
    CompleteEvidence id [twoBytes]
      (((beginReview 1 (ascii "review-000001") none).performAll id
        [(allWritten, .recordSourceRead twoBytes)]).perform id allWritten
          (.complete (ascii "completed"))).evidence.files
      (((beginReview 1 (ascii "review-000001") none).performAll id
        [(allWritten, .recordSourceRead twoBytes)]).perform id allWritten
          (.complete (ascii "completed"))).evidence.manifest ∧
    ∀ m, (((beginReview 1 (ascii "review-000001") none).performAll id
        [(allWritten, .recordSourceRead twoBytes),
          (contentFails, .recordSourceRead twoBytes)]).perform id allWritten
          (.complete (ascii "completed"))).published = some m → m.evidenceComplete = false := by
  have hreview := review_recorded id 1 (ascii "review-000001") none
    [(allWritten, .recordSourceRead twoBytes)]
  constructor
  · refine (hreview allWritten (.complete (ascii "completed")) rfl rfl).1 _ rfl ?_
    decide +kernel
  · intro m hm
    refine ((hreview contentFails (.recordSourceRead twoBytes) rfl rfl).2.1 (readFile 2)
      (by decide +kernel) (by decide +kernel)).2 [] allWritten (.complete (ascii "completed")) m ?_
    exact hm

end ReviewEvidence

end Carcer.Provenance
