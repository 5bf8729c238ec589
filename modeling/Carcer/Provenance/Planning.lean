import Carcer.Disk.Tree
import Carcer.Provenance.HarnessIdentity
import Carcer.Wire.Numbered

/-!
# Planning evidence

`internal/provenance/planning.go`: the evidence of a generation's plan. The evidence is a manifest
in memory with one entry for every planning attempt, and a directory that holds the manifest and the
responses. A call writes the response of the active attempt, where it has one, and then the manifest
that it is about to adopt; either write may fail before the file is renamed into its place, and the
manifest in memory is replaced only when both are done.

What the operating system says of a failed write is left out; so is a temporary file that could not
be removed.

## Main definitions

* `beginPlanning`: allocates the directory of a generation
* `PlanningCall`, `PlanningEvidence.perform`: the calls on the evidence of one generation
* `PlanRecorded`: what the manifest says of the attempts and of the files
* `PlanKept`: the invariant of the evidence

## Main results

* `PlanKept.perform`: every call keeps the invariant
* `unadopted_perform`: a call that fails leaves the manifest in memory as it was
* `planning_recorded`: what is recorded over every sequence of calls, whichever writes fail
-/

namespace Carcer.Provenance

open Carcer.Wire Carcer.Json Carcer.Disk List

/-! ### Manifests -/

/-- The outcome of an attempt. -/
inductive AttemptOutcome
  | active
  | completed
  | interrupted
  | yieldedForReview
  | failed
  deriving DecidableEq

/-- An outcome as it is written. -/
def AttemptOutcome.text : AttemptOutcome → Bytes
  | .active => ascii "active"
  | .completed => ascii "completed"
  | .interrupted => ascii "interrupted"
  | .yieldedForReview => ascii "yielded_for_review"
  | .failed => ascii "failed"

/-- The stage of the evidence. -/
inductive PlanningStage
  | allocated
  | started
  | awaitingResume
  | completed
  deriving DecidableEq

/-- A stage as it is written. -/
def PlanningStage.text : PlanningStage → Bytes
  | .allocated => ascii "allocated"
  | .started => ascii "started"
  | .awaitingResume => ascii "awaiting_resume"
  | .completed => ascii "completed"

/-- The outcome of the evidence. -/
inductive PlanningOutcome
  | incomplete
  | completed
  | failed
  deriving DecidableEq

/-- An outcome as it is written. -/
def PlanningOutcome.text : PlanningOutcome → Bytes
  | .incomplete => ascii "incomplete"
  | .completed => ascii "completed"
  | .failed => ascii "failed"

structure PlanningResponseIdentity where
  sha256 : Bytes
  size : ℕ
  deriving DecidableEq

/-- `planningAttempt`. The number is one more than the length of a slice, and does not overflow. -/
structure PlanningAttempt where
  attempt : ℕ
  outcome : AttemptOutcome
  responseBytes : Option ℕ
  responseFile : Bytes
  responsePresent : Option Bool
  responseSHA256 : Bytes
  turnID : Option Bytes
  deriving DecidableEq

/-- `planningManifest`, without its kind and its schema version, which never change. -/
structure PlanningManifest where
  attempts : List PlanningAttempt
  generation : UInt64
  harnessIdentity : Option HarnessIdentity
  outcome : PlanningOutcome
  responseBytes : Option ℕ
  responseFile : Bytes
  responsePresent : Option Bool
  responseSHA256 : Bytes
  stage : PlanningStage
  threadID : Bytes
  turnID : Option Bytes
  deriving DecidableEq

def numberJSON (n : ℕ) : Value := .number (decimal n)

/-- A string as JSON, left out where it is empty. -/
def omitString (text : Bytes) : Option Value := if text = [] then none else some (.string text)

/-- A pointer to a string as JSON. -/
def nullableJSON (text : Option Bytes) : Value := text.elim .null .string

/-- An object of the members that are not left out. -/
def membersJSON (members : List (Bytes × Option Value)) : Value :=
  .object (members.filterMap fun member => member.2.map fun v => (member.1, v))

/-- `planningAttempt` as JSON. -/
def PlanningAttempt.asJSON (a : PlanningAttempt) : Value :=
  membersJSON [(ascii "attempt", some (numberJSON a.attempt)),
    (ascii "outcome", some (.string a.outcome.text)),
    (ascii "response_bytes", a.responseBytes.map numberJSON),
    (ascii "response_file", omitString a.responseFile),
    (ascii "response_present", a.responsePresent.map .bool),
    (ascii "response_sha256", omitString a.responseSHA256),
    (ascii "turn_id", some (nullableJSON a.turnID))]

/-- `HarnessIdentity` as JSON, in the order of its fields. -/
def HarnessIdentity.fieldsJSON (identity : HarnessIdentity) : Value :=
  membersJSON [(ascii "build", buildCodec.write identity.build),
    (ascii "executable", fileCodec.write identity.executable),
    (ascii "repository_commit", some (.string identity.repositoryCommit)),
    (ascii "repository_dirty", some (.bool identity.repositoryDirty)),
    (ascii "dirty_tree_sha256", some (nullableJSON identity.dirtyTreeSHA256)),
    (ascii "schema_version", some (numberJSON identity.schemaVersion.toNat))]

def planningSchemaVersion : ℕ := 2

/-- `planningManifest` as JSON. -/
def PlanningManifest.asJSON (m : PlanningManifest) : Value :=
  membersJSON [(ascii "attempts", some (.array (m.attempts.map PlanningAttempt.asJSON))),
    (ascii "generation", some (numberJSON m.generation.toNat)),
    (ascii "harness_identity", m.harnessIdentity.map HarnessIdentity.fieldsJSON),
    (ascii "kind", some (.string (ascii "generation_plan"))),
    (ascii "outcome", some (.string m.outcome.text)),
    (ascii "response_bytes", m.responseBytes.map numberJSON),
    (ascii "response_file", omitString m.responseFile),
    (ascii "response_present", m.responsePresent.map .bool),
    (ascii "response_sha256", omitString m.responseSHA256),
    (ascii "schema_version", some (numberJSON planningSchemaVersion)),
    (ascii "stage", some (.string m.stage.text)),
    (ascii "thread_id", some (.string m.threadID)),
    (ascii "turn_id", some (nullableJSON m.turnID))]

/-- What `asciiJSON` writes for one character. -/
def asciiRune (bytes : Bytes) : Bytes :=
  let r := rune bytes
  if r < 0x80 then [UInt8.ofNat r]
  else if r ≤ 0xffff then unicodeText r
  else
    -- a character beyond the first plane is a pair of surrogates
    unicodeText (0xd800 + (r - 0x10000) / 0x400) ++ unicodeText (0xdc00 + (r - 0x10000) % 0x400)

def asciiJSON (encoded : Bytes) : Bytes := (sequences encoded).flatMap asciiRune

/-- What `writePlanningJSON` writes. -/
def PlanningManifest.encoded (m : PlanningManifest) : Bytes :=
  asciiJSON (encodeHarnessJSON m.asJSON)

/-! ### Allocating evidence -/

inductive PlanningError
  /-- "planning thread ID must not be empty" -/
  | threadEmpty
  /-- "planning thread ID must be valid UTF-8" -/
  | threadEncoding
  /-- "planning evidence already exists for generation %d" -/
  | alreadyExists (generation : UInt64)
  /-- "planning evidence root is unsafe" -/
  | rootUnsafe
  /-- What `ValidateHarnessIdentity` says. -/
  | identity (error : HarnessError)
  /-- "planning turn ID must not be empty" -/
  | turnEmpty
  /-- "planning turn ID must be valid UTF-8" -/
  | turnEncoding
  /-- "planning evidence cannot start another attempt" -/
  | cannotStart
  /-- "planning completion outcome is invalid" -/
  | outcomeInvalid
  /-- "planning response must be valid UTF-8" -/
  | responseEncoding
  /-- "planning proposal must be valid UTF-8" -/
  | proposalEncoding
  /-- "planning evidence is not active" -/
  | notActive
  /-- "planning evidence has no active attempt" -/
  | noActiveAttempt
  /-- "planning evidence active attempt changed" -/
  | activeChanged
  /-- "cannot write planning evidence %s" -/
  | write (name : Bytes)
  deriving DecidableEq

/-- The file of the manifest. -/
def manifestFile : Bytes := ascii "manifest.json"

/-- The name of a generation's directory. -/
def planningDirectory (generation : UInt64) : Bytes :=
  Wire.numbered (ascii "generation-") [] 4 generation.toNat

/-- `PlanningEvidence`: the manifest in memory, and the files of its directory. -/
structure PlanningEvidence where
  manifest : PlanningManifest
  files : Named Bytes
  deriving DecidableEq

/-- The manifest of evidence that was just allocated. -/
def allocatedManifest (generation : UInt64) (threadID : Bytes) (identity : Option HarnessIdentity) :
    PlanningManifest :=
  ⟨[], generation, identity, .incomplete, none, [], none, [], .allocated, threadID, none⟩

/-- The evidence that was just allocated. -/
def allocatedEvidence (generation : UInt64) (threadID : Bytes) (identity : Option HarnessIdentity) :
    PlanningEvidence :=
  let manifest := allocatedManifest generation threadID identity
  ⟨manifest, [(manifestFile, manifest.encoded)]⟩

/-- `Begin`, on what `planning-evidence` is in the run directory. File operations succeed. The
identity is looked at only when the directory is there, and an empty directory stays behind where it
is refused. -/
def beginPlanning (identity : Option HarnessIdentity) (generation : UInt64) (threadID : Bytes)
    (root : Option Entry) : Option Entry × Except PlanningError PlanningEvidence :=
  if threadID = [] then (root, .error .threadEmpty)
  else if utf8Valid threadID = false then (root, .error .threadEncoding)
  else match root with
    | some (.symlink target) =>
      if Entry.isDirectory (followTarget target) then (root, .error .rootUnsafe)
      else (root, .error (.alreadyExists generation))
    | some (.file _) => (root, .error (.alreadyExists generation))
    | some .special => (root, .error (.alreadyExists generation))
    | none | some (.directory _) =>
      let entries := Entry.entries root
      let name := planningDirectory generation
      match entries.entry name with
      | some _ => (root, .error (.alreadyExists generation))
      | none =>
        match identity.elim (.ok ()) validateHarnessIdentity with
        | .error error =>
          (some (.directory (entries.put name (.directory []))), .error (.identity error))
        | .ok _ =>
          let evidence := allocatedEvidence generation threadID identity
          (some (.directory (entries.put name
            (.directory (evidence.files.map fun file => (file.1, .file file.2))))), .ok evidence)

/-! ### Calls -/

/-- Which of the writes of a call get as far as the rename. -/
structure PlanningWrites where
  response : Bool
  manifest : Bool

/-- What a call returns; the identity of the response, where the call has one. -/
abbrev PlanningPerformed : Type :=
  PlanningEvidence × Except PlanningError (Option PlanningResponseIdentity)

/-- `activeAttempt`, which is `candidateActiveAttempt` of the manifest in memory. -/
def activeAttempt (m : PlanningManifest) : Except PlanningError PlanningAttempt :=
  match m.attempts.getLast? with
  | none => .error .notActive
  | some last =>
    if m.stage ≠ .started then .error .notActive
    else if last.outcome ≠ .active then .error .noActiveAttempt
    else .ok last

namespace PlanningEvidence

/-- The manifest is written, and adopted when it is. -/
def adopt (writes : PlanningWrites) (candidate : PlanningManifest)
    (identity : Option PlanningResponseIdentity) (e : PlanningEvidence) : PlanningPerformed :=
  if writes.manifest then (⟨candidate, e.files.put manifestFile candidate.encoded⟩, .ok identity)
  else (e, .error (.write manifestFile))

/-- The manifest with the last attempt replaced. -/
def settled (m : PlanningManifest) (attempt : PlanningAttempt) (stage : PlanningStage)
    (outcome : PlanningOutcome) : PlanningManifest :=
  { m with attempts := m.attempts.dropLast ++ [attempt], stage := stage, outcome := outcome }

def recordStarted (writes : PlanningWrites) (turnID : Bytes) (e : PlanningEvidence) :
    PlanningPerformed :=
  if turnID = [] then (e, .error .turnEmpty)
  else if utf8Valid turnID = false then (e, .error .turnEncoding)
  else if e.manifest.stage ≠ .allocated ∧ e.manifest.stage ≠ .awaitingResume then
    (e, .error .cannotStart)
  else
    let attempt : PlanningAttempt :=
      ⟨e.manifest.attempts.length + 1, .active, none, [], none, [], some turnID⟩
    e.adopt writes { e.manifest with
      attempts := e.manifest.attempts ++ [attempt], turnID := some turnID, stage := .started } none

variable (digest : Bytes → Bytes)

/-- The identity of a response. -/
def identityOf (response : Bytes) : PlanningResponseIdentity := ⟨digest response, response.length⟩

/-- The attempt with its response. -/
def responded (attempt : PlanningAttempt) (outcome : AttemptOutcome) (file : Bytes) (present : Bool)
    (response : Bytes) : PlanningAttempt :=
  { attempt with
    outcome := outcome, responseBytes := some response.length, responseFile := file,
    responsePresent := some present, responseSHA256 := digest response }

/-- The response is written, and then the manifest. -/
def respond (writes : PlanningWrites) (file response : Bytes) (candidate : PlanningManifest)
    (e : PlanningEvidence) : PlanningPerformed :=
  if writes.response then
    adopt writes candidate (some (identityOf digest response))
      { e with files := e.files.put file response }
  else (e, .error (.write file))

/-- The file of a completed plan. -/
def responseFile : Bytes := ascii "response.txt"

/-- The file of a response that was interrupted. -/
def interruptedFile (attempt : ℕ) : Bytes :=
  Wire.numbered (ascii "attempt-") (ascii "-response.txt") 4 attempt

/-- The file of a plan that is proposed for review. -/
def proposalFile (attempt : ℕ) : Bytes :=
  Wire.numbered (ascii "attempt-") (ascii "-proposal.txt") 4 attempt

/-- The manifest of a plan that is completed. -/
def completedManifest (m : PlanningManifest) (attempt : PlanningAttempt) (present : Bool)
    (response : Bytes) : PlanningManifest :=
  { settled m (responded digest attempt .completed responseFile present response) .completed
      .completed with
    responseBytes := some response.length, responseFile := responseFile,
    responsePresent := some present, responseSHA256 := digest response }

def complete (writes : PlanningWrites) (outcome : Bytes) (response : Option Bytes)
    (e : PlanningEvidence) : PlanningPerformed :=
  if outcome ≠ ascii "completed" ∧ outcome ≠ ascii "interrupted" then (e, .error .outcomeInvalid)
  else match activeAttempt e.manifest with
    | .error error => (e, .error error)
    | .ok attempt =>
      let exactResponse := response.getD []
      if utf8Valid exactResponse = false then (e, .error .responseEncoding)
      else if outcome = ascii "completed" then
        e.respond digest writes responseFile exactResponse
          (completedManifest digest e.manifest attempt response.isSome exactResponse)
      else
        let file := interruptedFile attempt.attempt
        e.respond digest writes file exactResponse (settled e.manifest
          (responded digest attempt .interrupted file response.isSome exactResponse)
          .awaitingResume .incomplete)

def recordYielded (writes : PlanningWrites) (proposal : Bytes) (e : PlanningEvidence) :
    PlanningPerformed :=
  if utf8Valid proposal = false then (e, .error .proposalEncoding)
  else match activeAttempt e.manifest with
    | .error error => (e, .error error)
    | .ok attempt =>
      let file := proposalFile attempt.attempt
      e.respond digest writes file proposal (settled e.manifest
        (responded digest attempt .yieldedForReview file true proposal) .awaitingResume .incomplete)

def fail (writes : PlanningWrites) (e : PlanningEvidence) : PlanningPerformed :=
  if e.manifest.outcome = .completed ∨ e.manifest.outcome = .failed then (e, .ok none)
  else if e.manifest.stage = .started then
    match activeAttempt e.manifest with
    | .error error => (e, .error error)
    | .ok attempt =>
      e.adopt writes (settled e.manifest { attempt with outcome := .failed } .completed .failed)
        none
  else
    let attempt : PlanningAttempt :=
      ⟨e.manifest.attempts.length + 1, .failed, none, [], none, [], none⟩
    e.adopt writes { e.manifest with
      attempts := e.manifest.attempts ++ [attempt], stage := .completed, outcome := .failed } none

def recordRetryableFailure (writes : PlanningWrites) (e : PlanningEvidence) : PlanningPerformed :=
  match activeAttempt e.manifest with
  | .error error => (e, .error error)
  | .ok attempt =>
    -- the candidate is a copy of the manifest, so that its last attempt is the active one
    if (e.manifest.attempts.getLast?.map PlanningAttempt.attempt) ≠ some attempt.attempt then
      (e, .error .activeChanged)
    else
      e.adopt writes
        (settled e.manifest { attempt with outcome := .failed } .awaitingResume .incomplete) none

end PlanningEvidence

inductive PlanningCall
  | recordStarted (turnID : Bytes)
  | complete (outcome : Bytes) (response : Option Bytes)
  | recordYielded (proposal : Bytes)
  | recordRetryableFailure
  | fail

def PlanningEvidence.perform (digest : Bytes → Bytes) (e : PlanningEvidence)
    (writes : PlanningWrites) : PlanningCall → PlanningPerformed
  | .recordStarted turnID => e.recordStarted writes turnID
  | .complete outcome response => e.complete digest writes outcome response
  | .recordYielded proposal => e.recordYielded digest writes proposal
  | .recordRetryableFailure => e.recordRetryableFailure writes
  | .fail => e.fail writes

/-- What calls do, one after the other. -/
def PlanningEvidence.performAll (digest : Bytes → Bytes) (e : PlanningEvidence)
    (calls : List (PlanningWrites × PlanningCall)) : PlanningEvidence :=
  calls.foldl (fun e call => (e.perform digest call.1 call.2).1) e

/-! ### What is recorded -/

/-- A file is the one that was recorded with this size and digest. -/
def DescribesFile (digest : Bytes → Bytes) (files : Named Bytes) (file : Bytes) (size : Option ℕ)
    (sha256 : Bytes) : Prop :=
  ∃ content, files.entry file = some content ∧ size = some content.length ∧ sha256 = digest content

/-- **What is recorded of the attempts.** -/
structure PlanRecorded (digest : Bytes → Bytes) (e : PlanningEvidence) : Prop where
  /-- The attempts are numbered without gaps. -/
  numbered : e.manifest.attempts.map PlanningAttempt.attempt =
    List.range' 1 e.manifest.attempts.length
  /-- Only the last attempt is active. -/
  last : ∀ i attempt, e.manifest.attempts[i]? = some attempt → attempt.outcome = .active →
    i + 1 = e.manifest.attempts.length
  /-- An attempt is active in the stage that says so. -/
  active : e.manifest.stage = .started ↔ ∃ attempt ∈ e.manifest.attempts, attempt.outcome = .active
  /-- The plan is completed when the last attempt is. -/
  completed : e.manifest.outcome = .completed ↔
    ∃ attempt, e.manifest.attempts.getLast? = some attempt ∧ attempt.outcome = .completed
  /-- The plan is in its file. -/
  response : e.manifest.outcome = .completed →
    e.manifest.responseFile = PlanningEvidence.responseFile ∧
      DescribesFile digest e.files PlanningEvidence.responseFile e.manifest.responseBytes
        e.manifest.responseSHA256
  /-- The responses of the attempts are in theirs. -/
  responses : ∀ attempt ∈ e.manifest.attempts, attempt.responseFile ≠ [] →
    DescribesFile digest e.files attempt.responseFile attempt.responseBytes attempt.responseSHA256
  /-- The manifest in memory is the one that was written. -/
  manifest : e.files.entry manifestFile = some e.manifest.encoded

/-- The file of an attempt with an outcome. -/
def fileOf (attempt : ℕ) : AttemptOutcome → Option Bytes
  | .completed => some PlanningEvidence.responseFile
  | .interrupted => some (PlanningEvidence.interruptedFile attempt)
  | .yieldedForReview => some (PlanningEvidence.proposalFile attempt)
  | .active | .failed => none

/-- The stage and the outcome that go with the outcome of the last attempt. -/
def PlanAgree : PlanningStage → PlanningOutcome → Option AttemptOutcome → Prop
  | .allocated, .incomplete, none => True
  | .started, .incomplete, some .active => True
  | .awaitingResume, .incomplete, some .interrupted => True
  | .awaitingResume, .incomplete, some .yieldedForReview => True
  | .awaitingResume, .incomplete, some .failed => True
  | .completed, .completed, some .completed => True
  | .completed, .failed, some .failed => True
  | _, _, _ => False

theorem PlanAgree.iffs {stage outcome last} (h : PlanAgree stage outcome last) :
    (stage = .started ↔ last = some .active) ∧
      (outcome = .completed ↔ last = some .completed) ∧
      (stage = .completed ↔ outcome ≠ .incomplete) := by
  revert h
  cases stage <;> cases outcome <;> rcases last with _ | _ | _ | _ | _ | _ <;> simp [PlanAgree]

/-- The invariant of the evidence. -/
structure PlanKept (digest : Bytes → Bytes) (e : PlanningEvidence) : Prop where
  numbered : e.manifest.attempts.map PlanningAttempt.attempt =
    List.range' 1 e.manifest.attempts.length
  /-- The attempts before the last one are over, and none of them completed the plan. -/
  closed : ∀ attempt ∈ e.manifest.attempts.dropLast,
    attempt.outcome ≠ .active ∧ attempt.outcome ≠ .completed
  agree : PlanAgree e.manifest.stage e.manifest.outcome
    (e.manifest.attempts.getLast?.map PlanningAttempt.outcome)
  /-- An attempt names the file of its outcome. -/
  named : ∀ attempt ∈ e.manifest.attempts,
    attempt.responseFile = (fileOf attempt.attempt attempt.outcome).getD []
  responses : ∀ attempt ∈ e.manifest.attempts, ∀ file,
    fileOf attempt.attempt attempt.outcome = some file →
      DescribesFile digest e.files file attempt.responseBytes attempt.responseSHA256
  response : e.manifest.outcome = .completed →
    e.manifest.responseFile = PlanningEvidence.responseFile ∧
      DescribesFile digest e.files PlanningEvidence.responseFile e.manifest.responseBytes
        e.manifest.responseSHA256
  manifest : e.files.entry manifestFile = some e.manifest.encoded

section PlanKept

variable {digest : Bytes → Bytes} {e e' : PlanningEvidence} {file : Bytes}
  {outcome : AttemptOutcome} {attempt : PlanningAttempt} {m : PlanningManifest}
  {before : List PlanningAttempt}

/-! ### The names of the files -/

/-- Attempts of different numbers never write to the same file, unless both complete the plan. -/
theorem fileOf_injective {i j : ℕ} {first second : AttemptOutcome} (hij : i ≠ j)
    (hfirst : first ≠ .completed) (hi : fileOf i first = some file) :
    fileOf j second ≠ some file := by
  intro hj
  -- the two ends are equally long, so that equal names have equal numbers
  have hends (a b : Bytes) (hab : a.length = b.length)
      (h : Wire.numbered (ascii "attempt-") a 4 i = Wire.numbered (ascii "attempt-") b 4 j) :
      False := by
    have hfront := (List.append_inj' h hab).1
    exact hij (padded_injective 4 (append_cancel_left hfront))
  -- the name of the plan does not start as those of the attempts do
  have hplan (n : ℕ) (a : Bytes) :
      Wire.numbered (ascii "attempt-") a 4 n ≠ PlanningEvidence.responseFile := by
    intro h
    have := congrArg List.head? h
    revert this
    simp [numbered, show ascii "attempt-" = 0x61 :: ascii "ttempt-" by decide,
      show PlanningEvidence.responseFile.head? = some 0x72 by decide]
  cases first with
  | completed => exact hfirst rfl
  | active | failed => cases hi
  | interrupted =>
    cases hi
    cases second with
    | active | failed => cases hj
    | completed => exact hplan i _ (Option.some.inj hj).symm
    | interrupted => exact hends _ _ rfl (Option.some.inj hj).symm
    | yieldedForReview => exact hends _ _ (by decide) (Option.some.inj hj).symm
  | yieldedForReview =>
    cases hi
    cases second with
    | active | failed => cases hj
    | completed => exact hplan i _ (Option.some.inj hj).symm
    | interrupted => exact hends _ _ (by decide) (Option.some.inj hj).symm
    | yieldedForReview => exact hends _ _ rfl (Option.some.inj hj).symm

theorem fileOf_ne_manifestFile {n : ℕ}
    (h : fileOf n outcome = some file) : file ≠ manifestFile ∧ file ≠ [] := by
  have hname (back : Bytes) : Wire.numbered (ascii "attempt-") back 4 n ≠ manifestFile ∧
      Wire.numbered (ascii "attempt-") back 4 n ≠ [] := by
    have hfront : Wire.numbered (ascii "attempt-") back 4 n =
        0x61 :: (ascii "ttempt-" ++ padded 4 n ++ back) := rfl
    rw [hfront, show manifestFile = 0x6d :: ascii "anifest.json" by decide]
    simp
  cases outcome with
  | active | failed => cases h
  | completed => obtain rfl := Option.some.inj h; decide
  | interrupted | yieldedForReview => obtain rfl := Option.some.inj h; exact hname _

/-! ### One call -/

theorem DescribesFile.put {files} {file other content : Bytes} {size : Option ℕ}
    {sha256 : Bytes} (h : DescribesFile digest files file size sha256) (hne : file ≠ other) :
    DescribesFile digest (files.put other content) file size sha256 := by
  obtain ⟨stored, hstored, hidentity⟩ := h
  exact ⟨stored, (Named.entry_put_of_ne hne content files).trans hstored, hidentity⟩

theorem activeAttempt_eq_ok :
    activeAttempt m = .ok attempt ↔
      m.attempts.getLast? = some attempt ∧ m.stage = .started ∧ attempt.outcome = .active := by
  unfold activeAttempt
  rcases hlast : m.attempts.getLast? with _ | last
  · simp
  simp only [Option.some.injEq]
  split_ifs with hstage hactive
  · simp [hstage]
  · simp only [false_iff, not_and]
    rintro rfl -
    exact hactive
  simp only [Except.ok.injEq]
  refine ⟨?_, fun h => h.1⟩
  rintro rfl
  exact ⟨rfl, not_not.mp hstage, not_not.mp hactive⟩

/-- What the calls need to know of the attempts before the one that they write. -/
structure PlanBefore (e : PlanningEvidence) (before : List PlanningAttempt) : Prop where
  numbered : before.map PlanningAttempt.attempt = List.range' 1 before.length
  kept : ∀ attempt ∈ before, attempt ∈ e.manifest.attempts
  closed : ∀ attempt ∈ before, attempt.outcome ≠ .active ∧ attempt.outcome ≠ .completed

theorem PlanBefore.number_le (h : PlanBefore e before) (hmem : attempt ∈ before) :
    attempt.attempt ≤ before.length := by
  have hnumber : attempt.attempt ∈ List.range' 1 before.length :=
    h.numbered ▸ mem_map_of_mem hmem
  rw [List.mem_range'_1] at hnumber
  omega

section

variable (h : PlanKept digest e)
include h

/-- The plan is open in the stages before the last one. -/
theorem PlanKept.incomplete (hstage : e.manifest.stage ≠ .completed) :
    e.manifest.outcome = .incomplete := by
  by_contra houtcome
  exact hstage (h.agree.iffs.2.2.mpr houtcome)

/-- While no attempt is active and the plan is open, all attempts are over. -/
theorem PlanKept.before_all (hstage : e.manifest.stage ≠ .started)
    (houtcome : e.manifest.outcome = .incomplete) : PlanBefore e e.manifest.attempts := by
  refine ⟨h.numbered, fun _ hmem => hmem, fun attempt hmem => ?_⟩
  obtain ⟨last, hlast⟩ : ∃ last, e.manifest.attempts.getLast? = some last :=
    ⟨_, getLast?_eq_some_getLast (ne_nil_of_mem hmem)⟩
  rw [← dropLast_append_getLast? last hlast, mem_append, mem_singleton] at hmem
  rcases hmem with hmem | rfl
  · exact h.closed attempt hmem
  -- the stage and the outcome say of the last attempt what it is not
  obtain ⟨hactive, hcompleted, -⟩ := h.agree.iffs
  rw [hlast, Option.map_some, Option.some.injEq] at hactive hcompleted
  refine ⟨fun houtcome' => hstage (hactive.mpr houtcome'), fun houtcome' => ?_⟩
  rw [houtcome] at hcompleted
  exact absurd (hcompleted.mpr houtcome') (by decide)

/-- Before the active attempt, all attempts are over. -/
theorem PlanKept.before_active (hlast : e.manifest.attempts.getLast? = some attempt) :
    PlanBefore e e.manifest.attempts.dropLast ∧
      attempt.attempt = e.manifest.attempts.dropLast.length + 1 := by
  obtain ⟨before, heq⟩ : ∃ before, e.manifest.attempts = before ++ [attempt] :=
    ⟨_, (dropLast_append_getLast? attempt hlast).symm⟩
  have hnumbered := h.numbered
  have hclosed := h.closed
  rw [heq, dropLast_concat] at hclosed ⊢
  rw [heq, map_append, length_append, map_singleton, length_singleton,
    List.range'_1_concat] at hnumbered
  obtain ⟨hbefore, hnumber⟩ := List.append_inj' hnumbered rfl
  refine ⟨⟨hbefore, fun a ha => ?_, hclosed⟩, ?_⟩
  · rw [heq]
    exact mem_append_left _ ha
  · rw [singleton_inj.mp hnumber, Nat.add_comm]

/-- The files of the attempts before one are not those that it writes. -/
theorem PlanKept.describes (hbefore : PlanBefore e before) {n : ℕ}
    (hn : n = before.length + 1) {written response : Bytes}
    (hwritten : fileOf n outcome = some written) (hmem : attempt ∈ before)
    (hfile : fileOf attempt.attempt attempt.outcome = some file) :
    DescribesFile digest (e.files.put written response) file attempt.responseBytes
      attempt.responseSHA256 := by
  have hle := hbefore.number_le hmem
  have hne : file ≠ written := fun heq => fileOf_injective (show attempt.attempt ≠ n by omega)
    (hbefore.closed attempt hmem).2 (heq ▸ hfile) hwritten
  exact (h.responses attempt (hbefore.kept attempt hmem) file hfile).put hne

/-- **A manifest that is adopted**: it ends in the attempt that was written, with the file that the
attempt names. -/
theorem PlanKept.adopted (hbefore : PlanBefore e before) {files}
    (hattempts : m.attempts = before ++ [attempt]) (hnumber : attempt.attempt = before.length + 1)
    (hagree : PlanAgree m.stage m.outcome (some attempt.outcome))
    (hnamed : attempt.responseFile = (fileOf attempt.attempt attempt.outcome).getD [])
    (hsilent : fileOf attempt.attempt attempt.outcome = none → files = e.files)
    (hwritten : ∀ file, fileOf attempt.attempt attempt.outcome = some file → ∃ response,
      files = e.files.put file response ∧ attempt.responseBytes = some response.length ∧
        attempt.responseSHA256 = digest response)
    (hresponse : m.outcome = .completed → m.responseFile = PlanningEvidence.responseFile ∧
      m.responseBytes = attempt.responseBytes ∧ m.responseSHA256 = attempt.responseSHA256) :
    PlanKept digest ⟨m, files.put manifestFile m.encoded⟩ := by
  -- what the attempt itself wrote
  have hown : ∀ file, fileOf attempt.attempt attempt.outcome = some file →
      DescribesFile digest files file attempt.responseBytes attempt.responseSHA256 := by
    intro file hfile
    obtain ⟨response, rfl, hidentity⟩ := hwritten file hfile
    exact ⟨response, Named.entry_put file response e.files, hidentity⟩
  refine ⟨?_, ?_, ?_, ?_, ?_, ?_, Named.entry_put ..⟩
  · change m.attempts.map _ = List.range' 1 m.attempts.length
    rw [hattempts, map_append, hbefore.numbered, length_append, length_singleton,
      List.range'_1_concat, map_singleton, hnumber, Nat.add_comm before.length]
  · change ∀ attempt ∈ m.attempts.dropLast, _
    rw [hattempts, dropLast_concat]
    exact hbefore.closed
  · change PlanAgree m.stage m.outcome (m.attempts.getLast?.map PlanningAttempt.outcome)
    rw [hattempts, getLast?_concat, Option.map_some]
    exact hagree
  · intro a ha
    replace ha : a ∈ m.attempts := ha
    rw [hattempts, mem_append, mem_singleton] at ha
    rcases ha with ha | rfl
    · exact h.named a (hbefore.kept a ha)
    · exact hnamed
  · intro a ha file hfile
    replace ha : a ∈ m.attempts := ha
    rw [hattempts, mem_append, mem_singleton] at ha
    refine DescribesFile.put ?_ (fileOf_ne_manifestFile hfile).1
    rcases ha with ha | rfl
    · cases hattempt : fileOf attempt.attempt attempt.outcome with
      | none =>
        rw [hsilent hattempt]
        exact h.responses a (hbefore.kept a ha) file hfile
      | some written =>
        obtain ⟨response, rfl, -⟩ := hwritten written hattempt
        exact h.describes hbefore hnumber hattempt ha hfile
    · exact hown file hfile
  · intro houtcome
    replace houtcome : m.outcome = .completed := houtcome
    obtain ⟨hfile, hbytes, hsha⟩ := hresponse houtcome
    have hcompleted : attempt.outcome = .completed :=
      Option.some.inj (hagree.iffs.2.1.mp houtcome)
    have hplan : fileOf attempt.attempt attempt.outcome = some PlanningEvidence.responseFile := by
      rw [hcompleted]; rfl
    refine ⟨hfile, ?_⟩
    change DescribesFile digest _ _ m.responseBytes m.responseSHA256
    rw [hbytes, hsha]
    exact (hown _ hplan).put (fileOf_ne_manifestFile hplan).1

/-- A response of the active attempt that no manifest names changes nothing that is recorded. -/
theorem PlanKept.orphaned (hactive : activeAttempt e.manifest = .ok attempt)
    {file response : Bytes} (hfile : fileOf attempt.attempt outcome = some file) :
    PlanKept digest { e with files := e.files.put file response } := by
  obtain ⟨hlast, hstage, houtcome⟩ := activeAttempt_eq_ok.mp hactive
  obtain ⟨hbefore, hnumber⟩ := h.before_active hlast
  have hattempts : e.manifest.attempts = e.manifest.attempts.dropLast ++ [attempt] :=
    (dropLast_append_getLast? attempt hlast).symm
  refine ⟨h.numbered, h.closed, h.agree, h.named, fun a ha name hname => ?_, fun hcompleted => ?_,
    (Named.entry_put_of_ne (fileOf_ne_manifestFile hfile).1.symm response e.files).trans h.manifest⟩
  · replace ha : a ∈ e.manifest.attempts := ha
    rw [hattempts, mem_append, mem_singleton] at ha
    rcases ha with ha | rfl
    · exact h.describes hbefore hnumber hfile ha hname
    -- the active attempt has no file yet
    rw [houtcome] at hname
    cases hname
  · -- with an active attempt the plan is open
    have hopen := h.incomplete (by rw [hstage]; decide)
    exact absurd (hopen.symm.trans hcompleted) (by decide)

/-- A response is written, and then the manifest that ends in its attempt. -/
theorem PlanKept.respond {attempt attempt'}
    (hactive : activeAttempt e.manifest = .ok attempt) {file response : Bytes} {present : Bool}
    (hfile : fileOf attempt.attempt outcome = some file)
    (hattempt : attempt' = PlanningEvidence.responded digest attempt outcome file present response)
    (hattempts : m.attempts = e.manifest.attempts.dropLast ++ [attempt'])
    (hagree : PlanAgree m.stage m.outcome (some outcome))
    (hresponse : m.outcome = .completed → m.responseFile = PlanningEvidence.responseFile ∧
      m.responseBytes = some response.length ∧ m.responseSHA256 = digest response)
    (writes : PlanningWrites) : PlanKept digest (e.respond digest writes file response m).1 := by
  obtain ⟨hlast, -, -⟩ := activeAttempt_eq_ok.mp hactive
  obtain ⟨hbefore, hnumber⟩ := h.before_active hlast
  subst hattempt
  unfold PlanningEvidence.respond
  split
  · unfold PlanningEvidence.adopt
    split
    · have hnamed : file = (fileOf attempt.attempt outcome).getD [] := by rw [hfile]; rfl
      refine h.adopted hbefore hattempts hnumber hagree hnamed (fun hnone => ?_)
        (fun name hname => ?_) hresponse
      · exact absurd (hfile.symm.trans hnone) (by simp)
      · obtain rfl := Option.mem_unique hfile hname
        exact ⟨response, rfl, rfl, rfl⟩
    · exact h.orphaned hactive hfile
  · exact h

/-- A manifest that names no new file is written. -/
theorem PlanKept.adopt (hbefore : PlanBefore e before) (attempt : PlanningAttempt)
    (hattempts : m.attempts = before ++ [attempt]) (hnumber : attempt.attempt = before.length + 1)
    (hagree : PlanAgree m.stage m.outcome (some attempt.outcome)) (hopen : m.outcome ≠ .completed)
    (hfile : fileOf attempt.attempt attempt.outcome = none) (hnamed : attempt.responseFile = [])
    (writes : PlanningWrites) : PlanKept digest (e.adopt writes m none).1 := by
  unfold PlanningEvidence.adopt
  split
  · refine h.adopted hbefore hattempts hnumber hagree (by rw [hfile, hnamed]; rfl) (fun _ => rfl)
      (fun name hname => ?_) fun houtcome => absurd houtcome hopen
    exact absurd (hfile.symm.trans hname) (by simp)
  · exact h

theorem PlanKept.adopt_failed (hactive : activeAttempt e.manifest = .ok attempt)
    (hattempts : m.attempts = e.manifest.attempts.dropLast ++ [{ attempt with outcome := .failed }])
    (hagree : PlanAgree m.stage m.outcome (some .failed)) (hopen : m.outcome ≠ .completed)
    (writes : PlanningWrites) : PlanKept digest (e.adopt writes m none).1 := by
  obtain ⟨hlast, -, houtcome⟩ := activeAttempt_eq_ok.mp hactive
  obtain ⟨hbefore, hnumber⟩ := h.before_active hlast
  have hunnamed : attempt.responseFile = [] := by
    rw [h.named attempt (mem_of_getLast? hlast), houtcome]
    rfl
  exact h.adopt hbefore _ hattempts hnumber hagree hopen rfl hunnamed writes

theorem PlanKept.recordStarted (writes : PlanningWrites) (turnID : Bytes) :
    PlanKept digest (e.recordStarted writes turnID).1 := by
  unfold PlanningEvidence.recordStarted
  split_ifs with hempty hencoding hstage
  iterate 3 exact h
  have hidle : e.manifest.stage ≠ .started ∧ e.manifest.stage ≠ .completed := by
    rw [not_and_or, not_not, not_not] at hstage
    rcases hstage with hstage | hstage <;> rw [hstage] <;> decide
  have hopen := h.incomplete hidle.2
  exact h.adopt (h.before_all hidle.1 hopen) _ rfl rfl (by simp only [hopen]; trivial)
    (by simp only [hopen]; decide) rfl rfl writes

theorem PlanKept.complete (writes : PlanningWrites) (outcome : Bytes)
    (response : Option Bytes) : PlanKept digest (e.complete digest writes outcome response).1 := by
  unfold PlanningEvidence.complete
  split
  · exact h
  split
  · exact h
  rename_i attempt hactive
  dsimp only
  split
  · exact h
  split
  · exact h.respond hactive (show fileOf _ .completed = some _ from rfl) rfl rfl (by trivial)
      (fun _ => ⟨rfl, rfl, rfl⟩) writes
  · exact h.respond hactive (show fileOf _ .interrupted = some _ from rfl) rfl rfl
      (by trivial) (fun hopen => by cases hopen) writes

theorem PlanKept.recordYielded (writes : PlanningWrites)
    (proposal : Bytes) : PlanKept digest (e.recordYielded digest writes proposal).1 := by
  unfold PlanningEvidence.recordYielded
  split_ifs
  · exact h
  split
  · exact h
  rename_i attempt hactive
  exact h.respond hactive (show fileOf _ .yieldedForReview = some _ from rfl) rfl rfl
    (by trivial) (fun hopen => by cases hopen) writes

theorem PlanKept.recordRetryableFailure (writes : PlanningWrites) :
    PlanKept digest (e.recordRetryableFailure writes).1 := by
  unfold PlanningEvidence.recordRetryableFailure
  split
  · exact h
  rename_i attempt hactive
  split_ifs
  · exact h
  · exact h.adopt_failed hactive rfl (by trivial) (fun hopen => by cases hopen) writes

theorem PlanKept.fail (writes : PlanningWrites) : PlanKept digest (e.fail writes).1 := by
  unfold PlanningEvidence.fail
  split_ifs with houtcome hstage
  · exact h
  · split
    · exact h
    · rename_i attempt hactive
      exact h.adopt_failed hactive rfl (by trivial) (fun hopen => by cases hopen) writes
  · have hopen : e.manifest.outcome = .incomplete := by
      rw [not_or] at houtcome
      cases ho : e.manifest.outcome <;> simp_all
    exact h.adopt (h.before_all hstage hopen) _ rfl rfl (by trivial) (fun hopen => by cases hopen)
      rfl rfl writes

/-- **Every call keeps what is recorded**, whichever of its writes fail. -/
theorem PlanKept.perform (writes : PlanningWrites) (call : PlanningCall) :
    PlanKept digest (e.perform digest writes call).1 := by
  cases call with
  | recordStarted turnID => exact h.recordStarted writes turnID
  | complete outcome response => exact h.complete writes outcome response
  | recordYielded proposal => exact h.recordYielded writes proposal
  | recordRetryableFailure => exact h.recordRetryableFailure writes
  | fail => exact h.fail writes

end

/-- When the call fails, the manifest in memory is as it was. -/
def Unadopted (e : PlanningEvidence) (performed : PlanningPerformed) : Prop :=
  ∀ error, performed.2 = .error error → performed.1.manifest = e.manifest

theorem unadopted_error (e : PlanningEvidence) (error : PlanningError) :
    Unadopted e (e, .error error) := fun _ _ => rfl

theorem unadopted_adopt {before : PlanningEvidence} (hmanifest : before.manifest = e.manifest)
    (writes : PlanningWrites) (m : PlanningManifest) (identity : Option PlanningResponseIdentity) :
    Unadopted e (before.adopt writes m identity) := by
  unfold PlanningEvidence.adopt
  split
  · exact fun _ h => by cases h
  · exact fun _ _ => hmanifest

theorem unadopted_respond (writes : PlanningWrites) (file response : Bytes) (m : PlanningManifest) :
    Unadopted e (e.respond digest writes file response m) := by
  unfold PlanningEvidence.respond
  split
  · exact unadopted_adopt rfl writes m _
  · exact unadopted_error e _

/-- **A call that fails leaves the manifest in memory as it was.** -/
theorem unadopted_perform (writes : PlanningWrites) (call : PlanningCall) :
    Unadopted e (e.perform digest writes call) := by
  cases call with
  | recordStarted turnID =>
    simp only [PlanningEvidence.perform, PlanningEvidence.recordStarted]
    split_ifs
    iterate 3 exact unadopted_error e _
    exact unadopted_adopt rfl writes _ _
  | complete outcome response =>
    simp only [PlanningEvidence.perform, PlanningEvidence.complete]
    split
    · exact unadopted_error e _
    split
    · exact unadopted_error e _
    split_ifs
    · exact unadopted_error e _
    all_goals exact unadopted_respond writes _ _ _
  | recordYielded proposal =>
    simp only [PlanningEvidence.perform, PlanningEvidence.recordYielded]
    split
    · exact unadopted_error e _
    split
    · exact unadopted_error e _
    · exact unadopted_respond writes _ _ _
  | recordRetryableFailure =>
    simp only [PlanningEvidence.perform, PlanningEvidence.recordRetryableFailure]
    split
    · exact unadopted_error e _
    split
    · exact unadopted_error e _
    · exact unadopted_adopt rfl writes _ _
  | fail =>
    simp only [PlanningEvidence.perform, PlanningEvidence.fail]
    split
    · exact fun _ _ => rfl
    split
    · split
      · exact unadopted_error e _
      · exact unadopted_adopt rfl writes _ _
    · exact unadopted_adopt rfl writes _ _

/-- When the plan is completed or has failed, no call does anything any more. -/
theorem PlanKept.perform_eq (h : PlanKept digest e) (houtcome : e.manifest.outcome ≠ .incomplete)
    (writes : PlanningWrites) (call : PlanningCall) : (e.perform digest writes call).1 = e := by
  have hstage := h.agree.iffs.2.2.mpr houtcome
  obtain ⟨error, hinactive⟩ : ∃ error, activeAttempt e.manifest = .error error := by
    cases hactive : activeAttempt e.manifest with
    | error error => exact ⟨error, rfl⟩
    | ok attempt =>
      have hstarted := (activeAttempt_eq_ok.mp hactive).2.1
      exact absurd (hstage.symm.trans hstarted) (by decide)
  cases call with
  | recordStarted turnID =>
    simp only [PlanningEvidence.perform, PlanningEvidence.recordStarted, hstage]
    split_ifs <;> first | rfl | simp_all
  | complete outcome response =>
    simp only [PlanningEvidence.perform, PlanningEvidence.complete, hinactive]
    split_ifs <;> rfl
  | recordYielded proposal =>
    simp only [PlanningEvidence.perform, PlanningEvidence.recordYielded, hinactive]
    split_ifs <;> rfl
  | recordRetryableFailure =>
    simp only [PlanningEvidence.perform, PlanningEvidence.recordRetryableFailure, hinactive]
  | fail =>
    simp only [PlanningEvidence.perform, PlanningEvidence.fail]
    rw [if_pos]
    cases ho : e.manifest.outcome <;> simp_all

/-! ### Every sequence of calls -/

theorem kept_allocatedEvidence (digest : Bytes → Bytes) (generation : UInt64) (threadID : Bytes)
    (identity : Option HarnessIdentity) :
    PlanKept digest (allocatedEvidence generation threadID identity) :=
  ⟨rfl, nofun, trivial, nofun, nofun, nofun, rfl⟩

theorem PlanKept.performAll (h : PlanKept digest e) (calls : List (PlanningWrites × PlanningCall)) :
    PlanKept digest (e.performAll digest calls) := by
  induction calls generalizing e with
  | nil => exact h
  | cons call calls ih => exact ih (h.perform call.1 call.2)

theorem PlanKept.performAll_eq (h : PlanKept digest e) (houtcome : e.manifest.outcome ≠ .incomplete)
    (calls : List (PlanningWrites × PlanningCall)) : e.performAll digest calls = e := by
  induction calls with
  | nil => rfl
  | cons call calls ih =>
    change ((e.perform digest call.1 call.2).1).performAll digest calls = e
    rw [h.perform_eq houtcome, ih]

/-- What the invariant says of the attempts. -/
theorem PlanKept.recorded (h : PlanKept digest e) : PlanRecorded digest e := by
  obtain ⟨hactive, hcompleted, -⟩ := h.agree.iffs
  simp only [Option.map_eq_some_iff] at hactive hcompleted
  have hlast : ∀ i attempt, e.manifest.attempts[i]? = some attempt → attempt.outcome = .active →
      i + 1 = e.manifest.attempts.length := by
    intro i attempt hattempt houtcome
    by_contra hi
    have hlt : i < e.manifest.attempts.length := (List.getElem?_eq_some_iff.mp hattempt).1
    have hmem : attempt ∈ e.manifest.attempts.dropLast := by
      rw [dropLast_eq_take]
      refine mem_of_getElem? (i := i) ?_
      rw [getElem?_take_of_lt (by omega)]
      exact hattempt
    exact (h.closed attempt hmem).1 houtcome
  refine ⟨h.numbered, hlast, hactive.trans ⟨?_, ?_⟩, hcompleted, h.response,
    fun attempt hmem hne => ?_, h.manifest⟩
  · rintro ⟨attempt, hattempt, houtcome⟩
    exact ⟨attempt, mem_of_getLast? hattempt, houtcome⟩
  · rintro ⟨attempt, hmem, houtcome⟩
    obtain ⟨i, hattempt⟩ := getElem?_of_mem hmem
    refine ⟨attempt, ?_, houtcome⟩
    rw [List.getLast?_eq_getElem?, ← hlast i attempt hattempt houtcome]
    exact hattempt
  · rw [h.named attempt hmem] at hne ⊢
    cases hfile : fileOf attempt.attempt attempt.outcome with
    | none => rw [hfile] at hne; exact absurd rfl hne
    | some file => exact h.responses attempt hmem file hfile

theorem beginPlanning_ok {identity} {generation : UInt64} {threadID : Bytes} {root}
    (h : (beginPlanning identity generation threadID root).2 = .ok e) :
    e = allocatedEvidence generation threadID identity := by
  unfold beginPlanning at h
  split_ifs at h
  split at h
  · split_ifs at h
  · cases h
  · cases h
  all_goals
    dsimp only at h
    split at h
    · cases h
    split at h
    · cases h
    · exact (Except.ok.inj h).symm

end PlanKept

/-- **What is recorded of a plan.** Over every sequence of calls on the evidence of a generation,
whichever writes fail before the rename: the attempts are numbered without gaps, only the last one
can be active and the stage says whether it is; the plan is completed exactly when the last attempt
is, and what the manifest says of the responses is what the files hold. A plan that is completed or
has failed stays so, and a call that fails leaves the manifest in memory as it was. -/
theorem planning_recorded (digest : Bytes → Bytes) (identity : Option HarnessIdentity)
    (generation : UInt64) (threadID : Bytes) (root : Option Entry) {evidence : PlanningEvidence}
    (hbegin : (beginPlanning identity generation threadID root).2 = .ok evidence)
    (calls : List (PlanningWrites × PlanningCall)) :
    PlanRecorded digest (evidence.performAll digest calls) ∧
      ((evidence.performAll digest calls).manifest.outcome ≠ .incomplete → ∀ later,
        ((evidence.performAll digest calls).performAll digest later).manifest.outcome =
          (evidence.performAll digest calls).manifest.outcome) ∧
      ∀ writes call error,
        ((evidence.performAll digest calls).perform digest writes call).2 = .error error →
          ((evidence.performAll digest calls).perform digest writes call).1.manifest =
            (evidence.performAll digest calls).manifest := by
  obtain rfl := beginPlanning_ok hbegin
  have hkept := (kept_allocatedEvidence digest generation threadID identity).performAll calls
  refine ⟨hkept.recorded, fun houtcome later => ?_, unadopted_perform⟩
  rw [hkept.performAll_eq houtcome later]

/-- The manifest that completes the plan is not written; the attempt is given up, and a second one
completes the plan. -/
def retriedPlan : List (PlanningWrites × PlanningCall) :=
  [(⟨true, true⟩, .recordStarted (ascii "first")),
    (⟨true, false⟩, .complete (ascii "completed") (some (ascii "plan"))),
    (⟨true, true⟩, .recordRetryableFailure),
    (⟨true, true⟩, .recordStarted (ascii "second")),
    (⟨true, true⟩, .complete (ascii "completed") (some (ascii "better plan")))]

theorem planning_recorded_retried :
    (beginPlanning none 3 (ascii "thread") none).2 =
        .ok (allocatedEvidence 3 (ascii "thread") none) ∧
      PlanRecorded id ((allocatedEvidence 3 (ascii "thread") none).performAll id retriedPlan) ∧
      ((allocatedEvidence 3 (ascii "thread") none).performAll id retriedPlan).manifest.outcome =
        .completed := by
  have hbegin : (beginPlanning none 3 (ascii "thread") none).2 =
      .ok (allocatedEvidence 3 (ascii "thread") none) := by rfl
  exact ⟨hbegin, (planning_recorded id none 3 (ascii "thread") none hbegin retriedPlan).1,
    by decide +kernel⟩

end Carcer.Provenance
