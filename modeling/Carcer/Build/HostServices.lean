import Carcer.Guest.Protocol
import Carcer.Guest.Snapshot
import Carcer.Wire.Runes

/-!
# The host services of a generation

`internal/build/host_service.go`: the services that a guest calls while it works on its successor.
A build that passes every stage becomes the latest successful one; a finish is accepted for the
snapshot of that build and for no other, and closes the generation to further work. What the
outside world does in a stage (the compiler, the candidate machine, the evidence on disk) is given
with each request.

## Main definitions

* `StagedBuildArtifacts`, `PendingGenerationFinish`, `HostServices`: the state of the services
* `Stages`: how the stages of one build attempt come out
* `handleBuildRequest`, `handleBuiltCandidate`, `finishGeneration`, `requestFeature`,
  `handleRequest`: the functions of the source
* `successorMatches`: the check of `completeLiveGeneration`
* `Event`, `HostServices.after`: a request with its outcomes, and the services after a sequence of
  them

## Main results

* `handleRequest_cases`: what one request can change
* `finish_closes_generation`: the invariants of every sequence of requests
-/

namespace Carcer.Build

open Carcer.Wire Carcer.Guest

/-! ### The values of the source -/

inductive BuildStatus
  | success
  | buildFailure
  | harnessFailure
  /-- Any other string. -/
  | other
  deriving DecidableEq

structure FileIdentity where
  sha256 : Bytes
  size : ℕ
  deriving DecidableEq, Inhabited

/-- `StagedBuildArtifacts`, without the pointer to the evidence. -/
structure StagedBuildArtifacts where
  kernelELF : Bytes
  iso : Bytes
  sourceSnapshot : Bytes
  buildAttemptID : Bytes
  sourceIdentity : FileIdentity
  kernelIdentity : FileIdentity
  isoIdentity : FileIdentity
  deriving DecidableEq

structure PendingGenerationFinish where
  handoffMessage : Bytes
  sourceSnapshot : Bytes
  kernelELF : Bytes
  iso : Bytes
  deriving DecidableEq

/-- The parts of `BuildHostService` and `CodexOSHostServices` that requests change. -/
structure HostServices where
  latestSuccessful : Option StagedBuildArtifacts
  pendingFinish : Option PendingGenerationFinish
  deriving DecidableEq

/-- The services of a new session. -/
def HostServices.new : HostServices := ⟨none, none⟩

/-- What the services are configured with. -/
structure ServiceConfig where
  sourceCapacity : Budget
  /-- There is a provenance recorder. -/
  hasProvenance : Bool
  /-- There is a candidate validator. -/
  hasValidator : Bool
  /-- There is a feature-request store, and with it a generation. -/
  hasFeatureStore : Bool
  /-- `err.Error()` of an error of the snapshot decoder. -/
  snapshotErrorText : SnapshotError → Bytes

structure BuildResult where
  status : BuildStatus
  diagnostics : Bytes
  kernelELF : Bytes
  iso : Bytes

structure CandidateBootResult where
  status : BuildStatus
  diagnostics : Bytes
  provenanceFailure : Bool

/-- How the stages of one build attempt come out: `false` and `none` are errors. -/
structure Stages where
  beginBuild : Bool
  attemptID : Bytes
  makeAttemptDirectory : Bool
  recordDecoded : Bool
  result : BuildResult
  recordCompileFailure : Bool
  kernelIdentity : Option FileIdentity
  isoIdentity : Option FileIdentity
  recordArtifacts : Bool
  validation : CandidateBootResult
  recordLatestSuccess : Bool
  sourceIdentity : Option FileIdentity
  recordFinal : Bool

/-- A request, with what happens outside of the services while it is handled. -/
structure Event where
  request : HostRequest
  stages : Stages
  /-- `FeatureRequestStore.Create`: the number of the recorded request, or the text of the error. -/
  featureCreated : Except Bytes ℕ
  /-- The response of the bootstrap service. -/
  bootstrapResponse : Except HostResponseError Frame
  /-- The response of the provided-assets service, when there is one. -/
  assetsResponse : Option (Except HostResponseError Frame)

/-! ### The build service -/

/-- `BuildResponseSuccess`, `FinishResponseAccepted` and `FeatureResponseRecorded`. -/
def responseSuccess : ℕ := 0

/-- `BuildResponseFailure` and `FinishResponseRejected`. -/
def responseFailure : ℕ := 1

/-- `BuildResponseHarnessFailure`, `FinishResponseHarnessFailure` and
`FeatureResponseHarnessFailure`. -/
def responseHarnessFailure : ℕ := 2

/-- The status and the output of a response. -/
abbrev Response : Type := ℕ × Bytes

/-- `provenanceFailureResult`. -/
def provenanceFailure : Response :=
  (responseHarnessFailure, ascii "cannot record trusted build provenance")

def artifactProvenanceFailure : Response :=
  (responseHarnessFailure, ascii "cannot record trusted build artifact provenance")

/-- The part of `handleBuiltCandidate` behind the validation of the candidate. -/
def handleValidation (config : ServiceConfig) (snapshot : Bytes) (stages : Stages)
    (kernelIdentity isoIdentity : FileIdentity) (latest : Option StagedBuildArtifacts) :
    Response × Option StagedBuildArtifacts :=
  let final (status : ℕ) : Response × Option StagedBuildArtifacts :=
    if config.hasProvenance ∧ ¬stages.recordFinal then (provenanceFailure, latest)
    else ((status, stages.validation.diagnostics), latest)
  match stages.validation.status with
  | .success =>
    if config.hasProvenance ∧ ¬stages.recordLatestSuccess then (provenanceFailure, latest)
    else
      let staged : StagedBuildArtifacts :=
        ⟨stages.result.kernelELF, stages.result.iso, snapshot, [], default, kernelIdentity,
          isoIdentity⟩
      if config.hasProvenance then
        match stages.sourceIdentity with
        | none => (provenanceFailure, latest)
        | some sourceIdentity =>
          ((responseSuccess, stages.validation.diagnostics), some { staged with
            buildAttemptID := stages.attemptID, sourceIdentity := sourceIdentity })
      else ((responseSuccess, stages.validation.diagnostics), some staged)
  | .buildFailure => final responseFailure
  | .harnessFailure | .other => final responseHarnessFailure

def handleBuiltCandidate (config : ServiceConfig) (snapshot : Bytes) (stages : Stages)
    (latest : Option StagedBuildArtifacts) : Response × Option StagedBuildArtifacts :=
  if stages.result.kernelELF = [] ∨ stages.result.iso = [] then
    ((responseHarnessFailure, ascii "trusted build returned no artifacts"), latest)
  else
    match stages.kernelIdentity, stages.isoIdentity with
    | some kernelIdentity, some isoIdentity =>
      if config.hasProvenance ∧ ¬stages.recordArtifacts then (artifactProvenanceFailure, latest)
      else if ¬config.hasValidator then
        ((responseHarnessFailure, ascii "candidate validator is not configured"), latest)
      else if stages.validation.provenanceFailure then (artifactProvenanceFailure, latest)
      else handleValidation config snapshot stages kernelIdentity isoIdentity latest
    | _, _ => (artifactProvenanceFailure, latest)

/-- The part of `BuildHostService.HandleRequest` behind the compiler. -/
def handleResult (config : ServiceConfig) (snapshot : Bytes) (stages : Stages)
    (latest : Option StagedBuildArtifacts) : Response × Option StagedBuildArtifacts :=
  let failed (recorded : Bool) (status : ℕ) : Response × Option StagedBuildArtifacts :=
    if config.hasProvenance ∧ ¬recorded then (provenanceFailure, latest)
    else ((status, stages.result.diagnostics), latest)
  match stages.result.status with
  | .success => handleBuiltCandidate config snapshot stages latest
  | .buildFailure => failed stages.recordCompileFailure responseFailure
  | .harnessFailure => failed stages.recordCompileFailure responseHarnessFailure
  | .other => failed stages.recordFinal responseHarnessFailure

/-- `BuildHostService.HandleRequest`: the response and the latest successful build. -/
def handleBuildRequest (config : ServiceConfig) (request : HostRequest) (stages : Stages)
    (latest : Option StagedBuildArtifacts) : Response × Option StagedBuildArtifacts :=
  if request.serviceName ≠ ascii "build" then
    ((responseFailure, ascii "unknown host service: " ++ request.serviceName), latest)
  else if config.hasProvenance ∧ ¬stages.beginBuild then (provenanceFailure, latest)
  else
    match request.arguments with
    | [snapshot] =>
      if ¬stages.makeAttemptDirectory then
        ((responseHarnessFailure, ascii "cannot create build attempt storage"), latest)
      else if config.hasProvenance ∧
          (parseSourceSnapshotWithBudget snapshot config.sourceCapacity).isOk ∧
          ¬stages.recordDecoded then (provenanceFailure, latest)
      else handleResult config snapshot stages latest
    | _ =>
      ((responseHarnessFailure, ascii "build expects exactly one source snapshot argument"), latest)

/-! ### The other services -/

def maxFinishHandoffBytes : ℕ := 16 * 1024

def maxFeatureDiagnostic : ℕ := 1024

def maxFeatureTitleBytes : ℕ := 256

def maxFeatureDescriptionBytes : ℕ := 16 * 1024

def finishGeneration (config : ServiceConfig) (arguments : List Bytes) (s : HostServices) :
    Response × HostServices :=
  if s.pendingFinish.isSome then
    ((responseHarnessFailure, ascii "generation finish has already been accepted"), s)
  else
    match arguments with
    | [encodedHandoff, sourceSnapshot] =>
      if encodedHandoff.length > maxFinishHandoffBytes then
        ((responseHarnessFailure, ascii "handoff message exceeds 16 KiB"), s)
      else if !utf8Valid encodedHandoff then
        ((responseHarnessFailure, ascii "handoff message is not valid UTF-8"), s)
      else
        match parseSourceSnapshotWithBudget sourceSnapshot config.sourceCapacity with
        | .error e => ((responseHarnessFailure, config.snapshotErrorText e), s)
        | .ok _ =>
          match s.latestSuccessful with
          | none => ((responseFailure, ascii "no successful build is available"), s)
          | some successfulBuild =>
            if sourceSnapshot ≠ successfulBuild.sourceSnapshot then
              ((responseFailure,
                ascii "current source differs from the latest successful build"), s)
            else
              ((responseSuccess, []), { s with pendingFinish := some ⟨encodedHandoff,
                sourceSnapshot, successfulBuild.kernelELF, successfulBuild.iso⟩ })
    | _ =>
      ((responseHarnessFailure,
        ascii "finish_generation expects a handoff and source snapshot"), s)

/-- `strings.ToValidUTF8` removes the invalid bytes when the replacement is empty. -/
def boundedFeatureDiagnostic (value : Bytes) : Bytes :=
  if value.length ≤ maxFeatureDiagnostic then value
  else ((sequences (value.take maxFeatureDiagnostic)).filter (IsSequence ·)).flatten

def requestFeature (config : ServiceConfig) (arguments : List Bytes) (created : Except Bytes ℕ)
    (s : HostServices) : Response :=
  if s.pendingFinish.isSome then
    (responseHarnessFailure, ascii "feature request rejected after generation finish was accepted")
  else
    match arguments with
    | [titleBytes, descriptionBytes] =>
      if titleBytes = [] then
        (responseHarnessFailure, ascii "feature-request title must not be empty")
      else if titleBytes.length > maxFeatureTitleBytes then
        (responseHarnessFailure, ascii "feature-request title exceeds 256 bytes")
      else if descriptionBytes.length > maxFeatureDescriptionBytes then
        (responseHarnessFailure, ascii "feature-request description exceeds 16 KiB")
      else if !utf8Valid titleBytes || !utf8Valid descriptionBytes then
        (responseHarnessFailure, ascii "feature-request text is not valid UTF-8")
      else if ¬config.hasFeatureStore then
        (responseHarnessFailure, ascii "feature-request service is not configured")
      else
        match created with
        | .error text => (responseHarnessFailure, boundedFeatureDiagnostic text)
        | .ok identifier => (responseSuccess, decimal identifier)
    | _ => (responseHarnessFailure, ascii "request_feature expects a title and description")

/-- A response is sent as a frame. -/
def respond (request : HostRequest) (response : Response) : Except HostResponseError Frame :=
  createHostServiceResponse request.requestID response.1 response.2

def handleRequest (config : ServiceConfig) (event : Event) (s : HostServices) :
    Except HostResponseError Frame × HostServices :=
  let request := event.request
  if request.serviceName = ascii "bootstrap_job" ∨
      request.serviceName = ascii "read_bootstrap_artifact" then
    if request.serviceName = ascii "bootstrap_job" ∧ s.pendingFinish.isSome then
      (respond request (2, ascii "bootstrap job rejected after generation finish"), s)
    else (event.bootstrapResponse, s)
  else if request.serviceName = ascii "build" then
    if s.pendingFinish.isSome then
      (respond request
        (responseHarnessFailure, ascii "build rejected after generation finish was accepted"), s)
    else
      let (response, latest) := handleBuildRequest config request event.stages s.latestSuccessful
      (respond request response, { s with latestSuccessful := latest })
  else if request.serviceName = ascii "finish_generation" then
    let (response, s) := finishGeneration config request.arguments s
    (respond request response, s)
  else if request.serviceName = ascii "request_feature" then
    (respond request (requestFeature config request.arguments event.featureCreated s), s)
  else if request.serviceName = ascii "list_provided_assets" ∨
      request.serviceName = ascii "read_provided_asset" then
    match event.assetsResponse with
    | none =>
      (respond request (responseFailure, ascii "provided-assets service is not configured"), s)
    | some response => (response, s)
  else
    (respond request (responseFailure, ascii "unknown host service: " ++ request.serviceName), s)

/-- The check of `completeLiveGeneration`. -/
def successorMatches (pending : Option PendingGenerationFinish)
    (validated : Option StagedBuildArtifacts) : Bool :=
  match pending, validated with
  | some pending, some validated =>
    pending.kernelELF = validated.kernelELF ∧ pending.iso = validated.iso ∧
      pending.sourceSnapshot = validated.sourceSnapshot
  | _, _ => false

/-- The services after a sequence of requests. -/
def HostServices.after (config : ServiceConfig) (s : HostServices) (events : List Event) :
    HostServices :=
  events.foldl (fun s event => (handleRequest config event s).2) s

/-! ### What one request can change -/

/-- The build of a snapshot came through every stage. -/
structure Validated (config : ServiceConfig) (event : Event) (staged : StagedBuildArtifacts) :
    Prop where
  service : event.request.serviceName = ascii "build"
  argument : event.request.arguments = [staged.sourceSnapshot]
  directory : event.stages.makeAttemptDirectory = true
  compiled : event.stages.result.status = .success
  kernelELF : event.stages.result.kernelELF = staged.kernelELF
  kernelELF_ne : staged.kernelELF ≠ []
  iso : event.stages.result.iso = staged.iso
  iso_ne : staged.iso ≠ []
  kernelIdentity : event.stages.kernelIdentity = some staged.kernelIdentity
  isoIdentity : event.stages.isoIdentity = some staged.isoIdentity
  validator : config.hasValidator = true
  proved : event.stages.validation.status = .success
  trusted : event.stages.validation.provenanceFailure = false
  recorded : config.hasProvenance = true → event.stages.beginBuild = true ∧
    ((parseSourceSnapshotWithBudget staged.sourceSnapshot config.sourceCapacity).isOk = true →
      event.stages.recordDecoded = true) ∧
    event.stages.recordArtifacts = true ∧ event.stages.recordLatestSuccess = true ∧
    event.stages.sourceIdentity = some staged.sourceIdentity

/-- The finish is accepted. -/
def FinishAccepted (config : ServiceConfig) (event : Event) (s : HostServices) : Prop :=
  event.request.serviceName = ascii "finish_generation" ∧
    (finishGeneration config event.request.arguments s).1.1 = responseSuccess

/-- A validated candidate replaces the latest build, and nothing else does. -/
theorem handleValidation_cases (config : ServiceConfig) (snapshot : Bytes) (stages : Stages)
    (kernelIdentity isoIdentity : FileIdentity) (latest : Option StagedBuildArtifacts) :
    (handleValidation config snapshot stages kernelIdentity isoIdentity latest).2 = latest ∨
    ∃ buildAttemptID sourceIdentity, stages.validation.status = .success ∧
      (config.hasProvenance = true → stages.recordLatestSuccess = true ∧
        stages.sourceIdentity = some sourceIdentity) ∧
      (handleValidation config snapshot stages kernelIdentity isoIdentity latest).2 =
        some ⟨stages.result.kernelELF, stages.result.iso, snapshot, buildAttemptID, sourceIdentity,
          kernelIdentity, isoIdentity⟩ := by
  unfold handleValidation
  cases hstatus : stages.validation.status with
  | success =>
    simp only
    by_cases hprovenance : config.hasProvenance = true
    · by_cases hrecorded : stages.recordLatestSuccess = true
      · cases hsource : stages.sourceIdentity with
        | none => simp [hprovenance, hrecorded]
        | some sourceIdentity =>
          refine .inr ⟨stages.attemptID, sourceIdentity, trivial, fun _ => ⟨hrecorded, rfl⟩, ?_⟩
          simp [hprovenance, hrecorded]
      · simp [hprovenance, hrecorded]
    · refine .inr ⟨[], default, trivial, fun h => absurd h hprovenance, ?_⟩
      simp [hprovenance]
  | _ =>
    refine .inl ?_
    simp only
    split_ifs <;> rfl

/-- A built candidate replaces the latest build when its artifacts are identified and recorded and
the validator accepts it. -/
theorem handleBuiltCandidate_cases (config : ServiceConfig) (snapshot : Bytes) (stages : Stages)
    (latest : Option StagedBuildArtifacts) :
    (handleBuiltCandidate config snapshot stages latest).2 = latest ∨
    ∃ staged : StagedBuildArtifacts, staged.sourceSnapshot = snapshot ∧
      stages.result.kernelELF = staged.kernelELF ∧ staged.kernelELF ≠ [] ∧
      stages.result.iso = staged.iso ∧ staged.iso ≠ [] ∧
      stages.kernelIdentity = some staged.kernelIdentity ∧
      stages.isoIdentity = some staged.isoIdentity ∧ config.hasValidator = true ∧
      stages.validation.status = .success ∧ stages.validation.provenanceFailure = false ∧
      (config.hasProvenance = true → stages.recordArtifacts = true ∧
        stages.recordLatestSuccess = true ∧ stages.sourceIdentity = some staged.sourceIdentity) ∧
      (handleBuiltCandidate config snapshot stages latest).2 = some staged := by
  unfold handleBuiltCandidate
  by_cases hartifacts : stages.result.kernelELF = [] ∨ stages.result.iso = []
  · rw [if_pos hartifacts]
    exact .inl rfl
  rw [if_neg hartifacts]
  obtain ⟨hkernel, hiso⟩ := not_or.mp hartifacts
  rcases hkernelIdentity : stages.kernelIdentity with _ | kernelIdentity
  · exact .inl rfl
  rcases hisoIdentity : stages.isoIdentity with _ | isoIdentity
  · exact .inl rfl
  simp only
  split
  · exact .inl rfl
  rename_i hrecorded
  split
  · exact .inl rfl
  rename_i hvalidator
  split
  · exact .inl rfl
  rename_i hfailure
  rcases handleValidation_cases config snapshot stages kernelIdentity isoIdentity latest with
    hsame | ⟨buildAttemptID, sourceIdentity, hstatus, hlatest, hstaged⟩
  · exact .inl hsame
  refine .inr ⟨_, rfl, rfl, hkernel, rfl, hiso, rfl, rfl, not_not.mp hvalidator, hstatus,
    Bool.eq_false_iff.mpr hfailure, fun hprovenance => ?_, hstaged⟩
  exact ⟨not_not.mp fun h => hrecorded ⟨hprovenance, h⟩, hlatest hprovenance⟩

/-- A build request changes the latest build only when it came through every stage. -/
theorem handleBuildRequest_cases (config : ServiceConfig) (event : Event)
    (latest : Option StagedBuildArtifacts) :
    (handleBuildRequest config event.request event.stages latest).2 = latest ∨
    ∃ staged, Validated config event staged ∧
      (handleBuildRequest config event.request event.stages latest).2 = some staged := by
  unfold handleBuildRequest
  split
  · exact .inl rfl
  rename_i hservice
  split
  · exact .inl rfl
  rename_i hbegin
  split
  case h_2 => exact .inl rfl
  case h_1 snapshot hargument =>
    split
    · exact .inl rfl
    rename_i hdirectory
    split
    · exact .inl rfl
    rename_i hdecoded
    unfold handleResult
    cases hresult : event.stages.result.status with
    | success =>
      rcases handleBuiltCandidate_cases config snapshot event.stages latest with
        hsame | ⟨staged, rfl, hkernel, hkernel_ne, hiso, hiso_ne, hkernelIdentity, hisoIdentity,
          hvalidator, hproved, htrusted, hrecorded, hstaged⟩
      · exact .inl hsame
      refine .inr ⟨staged, ⟨not_not.mp hservice, hargument, not_not.mp hdirectory, hresult,
        hkernel, hkernel_ne, hiso, hiso_ne, hkernelIdentity, hisoIdentity, hvalidator, hproved,
        htrusted, fun hprovenance => ?_⟩, hstaged⟩
      exact ⟨not_not.mp fun h => hbegin ⟨hprovenance, h⟩,
        fun hparse => not_not.mp fun h => hdecoded ⟨hprovenance, hparse, h⟩,
        hrecorded hprovenance⟩
    | _ =>
      refine .inl ?_
      simp only
      split_ifs <;> rfl

/-- A finish is accepted for the snapshot of the latest build, when none was accepted before, and a
finish that is not accepted changes nothing. -/
theorem finishGeneration_cases (config : ServiceConfig) (arguments : List Bytes)
    (s : HostServices) :
    ((finishGeneration config arguments s).1.1 ≠ responseSuccess ∧
      (finishGeneration config arguments s).2 = s) ∨
    ∃ handoff staged, s.pendingFinish = none ∧ s.latestSuccessful = some staged ∧
      arguments = [handoff, staged.sourceSnapshot] ∧
      handoff.length ≤ maxFinishHandoffBytes ∧ utf8Valid handoff = true ∧
      finishGeneration config arguments s = ((responseSuccess, []), { s with
        pendingFinish := some ⟨handoff, staged.sourceSnapshot,
          staged.kernelELF, staged.iso⟩ }) := by
  unfold finishGeneration
  have hharness : responseHarnessFailure ≠ responseSuccess := by decide
  have hfailure : responseFailure ≠ responseSuccess := by decide
  split
  · exact .inl ⟨hharness, rfl⟩
  rename_i hpending
  split
  case h_2 => exact .inl ⟨hharness, rfl⟩
  case h_1 handoff snapshot =>
    split
    · exact .inl ⟨hharness, rfl⟩
    rename_i hlength
    split
    · exact .inl ⟨hharness, rfl⟩
    rename_i hutf8
    split
    · exact .inl ⟨hharness, rfl⟩
    split
    · exact .inl ⟨hfailure, rfl⟩
    case h_2 staged hstaged =>
      split
      · exact .inl ⟨hfailure, rfl⟩
      rename_i hdiffers
      obtain rfl := not_not.mp hdiffers
      exact .inr ⟨handoff, staged, by simpa using hpending, hstaged, rfl, not_lt.mp hlength,
        by simpa using hutf8, rfl⟩

/-- What one request can do to the services. -/
inductive Change (config : ServiceConfig) (event : Event) (s : HostServices) : HostServices → Prop
  | same : ¬FinishAccepted config event s → Change config event s s
  | built (staged : StagedBuildArtifacts) : s.pendingFinish = none →
      ¬FinishAccepted config event s → Validated config event staged →
      Change config event s { s with latestSuccessful := some staged }
  | finished (handoff : Bytes) (staged : StagedBuildArtifacts) : s.pendingFinish = none →
      FinishAccepted config event s → s.latestSuccessful = some staged →
      event.request.arguments = [handoff, staged.sourceSnapshot] →
      Change config event s { s with
        pendingFinish := some ⟨handoff, staged.sourceSnapshot, staged.kernelELF, staged.iso⟩ }

/-- **One request.** A request changes nothing, or it is a validated build, or an accepted
finish. -/
theorem handleRequest_cases (config : ServiceConfig) (event : Event) (s : HostServices) :
    Change config event s (handleRequest config event s).2 := by
  have hother : ∀ name, event.request.serviceName = name → name ≠ ascii "finish_generation" →
      ¬FinishAccepted config event s := fun name hname hne haccepted =>
    hne (hname.symm.trans haccepted.1)
  unfold handleRequest
  simp only
  split
  case isTrue hbootstrap =>
    have hrefused : ¬FinishAccepted config event s := by
      rcases hbootstrap with hname | hname
      all_goals exact hother _ hname (by decide +kernel)
    split <;> exact .same hrefused
  split
  case isTrue hname =>
    have hrefused := hother _ hname (by decide +kernel)
    split
    · exact .same hrefused
    rename_i hopen
    have hpending : s.pendingFinish = none := by simpa using hopen
    rcases handleBuildRequest_cases config event s.latestSuccessful with
      hsame | ⟨staged, hvalidated, hstaged⟩
    · rw [hsame]
      exact .same hrefused
    · rw [hstaged]
      exact .built staged hpending hrefused hvalidated
  split
  case isTrue hname =>
    rcases finishGeneration_cases config event.request.arguments s with
      ⟨hstatus, hsame⟩ | ⟨handoff, staged, hpending, hlatest, harguments, -, -, hfinish⟩
    · rw [hsame]
      exact .same fun haccepted => hstatus haccepted.2
    have haccepted : FinishAccepted config event s := ⟨hname, by rw [hfinish]⟩
    rw [hfinish]
    exact .finished handoff staged hpending haccepted hlatest harguments
  rename_i hfinish
  have hrefused : ¬FinishAccepted config event s := fun haccepted => hfinish haccepted.1
  split
  · exact .same hrefused
  split
  · split <;> exact .same hrefused
  · exact .same hrefused

/-! ### What holds of every sequence of requests -/

/-- Once a finish is accepted, a request changes nothing and no finish is accepted again. -/
theorem Change.eq_of_pending {config event s s'} (h : Change config event s s')
    (hpending : s.pendingFinish ≠ none) : s' = s ∧ ¬FinishAccepted config event s := by
  cases h with
  | same hrefused => exact ⟨rfl, hrefused⟩
  | built _ hopen | finished _ _ hopen => exact absurd hopen hpending

/-- Once a finish is accepted, no sequence of requests changes anything. -/
theorem HostServices.after_of_pending {s : HostServices} (hpending : s.pendingFinish ≠ none)
    (config : ServiceConfig) (events : List Event) : s.after config events = s := by
  induction events with
  | nil => rfl
  | cons event events ih =>
    have hsame := ((handleRequest_cases config event s).eq_of_pending hpending).1
    rw [HostServices.after, List.foldl_cons, hsame]
    exact ih

/-- A pending finish is the one of the latest build. -/
def HostServices.Consistent (s : HostServices) : Prop :=
  s.pendingFinish ≠ none → successorMatches s.pendingFinish s.latestSuccessful = true

theorem Change.consistent {config event s s'} (h : Change config event s s') (hs : s.Consistent) :
    s'.Consistent := by
  cases h with
  | same => exact hs
  | built _ hopen => exact fun hpending => absurd hopen hpending
  | finished handoff staged _ _ hlatest =>
    intro _
    simp [successorMatches, hlatest]

theorem HostServices.Consistent.after {s : HostServices} (hs : s.Consistent)
    (config : ServiceConfig) (events : List Event) : (s.after config events).Consistent := by
  induction events generalizing s with
  | nil => exact hs
  | cons event events ih => exact ih ((handleRequest_cases config event s).consistent hs)

/-- The services that work on the generation. -/
def workServices : List Bytes :=
  [ascii "build", ascii "bootstrap_job", ascii "request_feature", ascii "finish_generation"]

/-- After an accepted finish the working services answer with a refusal. -/
theorem handleRequest_of_pending {s : HostServices} (hpending : s.pendingFinish ≠ none)
    (config : ServiceConfig) {event : Event} (hservice : event.request.serviceName ∈ workServices) :
    ∃ output, (handleRequest config event s).1 =
      respond event.request (responseHarnessFailure, output) := by
  have hsome : s.pendingFinish.isSome = true := Option.isSome_iff_ne_none.mpr hpending
  -- the names of the services, told apart once
  have hbuild : ascii "build" ≠ ascii "bootstrap_job" ∧
      ascii "build" ≠ ascii "read_bootstrap_artifact" := by decide +kernel
  have hfeature : ascii "request_feature" ≠ ascii "bootstrap_job" ∧
      ascii "request_feature" ≠ ascii "read_bootstrap_artifact" ∧
      ascii "request_feature" ≠ ascii "build" ∧
      ascii "request_feature" ≠ ascii "finish_generation" := by decide +kernel
  have hfinish : ascii "finish_generation" ≠ ascii "bootstrap_job" ∧
      ascii "finish_generation" ≠ ascii "read_bootstrap_artifact" ∧
      ascii "finish_generation" ≠ ascii "build" := by decide +kernel
  simp only [workServices, List.mem_cons, List.not_mem_nil, or_false] at hservice
  unfold handleRequest
  rcases hservice with hname | hname | hname | hname
  · simp [hname, hbuild, hsome]
    exact ⟨_, rfl⟩
  · simp [hname, hsome]
    exact ⟨_, rfl⟩
  · simp [hname, hfeature, hsome, requestFeature]
    exact ⟨_, rfl⟩
  · simp [hname, hfinish, hsome, finishGeneration]
    exact ⟨_, rfl⟩

/-- **The finish closes the generation.** In every sequence of requests, with every outcome of the
stages, the latest build changes only to a build that came through every stage; a finish is accepted
only for the snapshot of the latest build; after that both stay as they are, and every request for
work is refused, a second finish among them. So the check of `completeLiveGeneration` never
fails. -/
theorem finish_closes_generation (config : ServiceConfig) (events : List Event) (event : Event) :
    let s := HostServices.new.after config events
    let s' := (handleRequest config event s).2
    (s'.latestSuccessful ≠ s.latestSuccessful →
      ∃ staged, s'.latestSuccessful = some staged ∧ Validated config event staged) ∧
    (s'.pendingFinish ≠ s.pendingFinish → FinishAccepted config event s) ∧
    (FinishAccepted config event s → ∃ handoff staged, s.pendingFinish = none ∧
      s.latestSuccessful = some staged ∧
      event.request.arguments = [handoff, staged.sourceSnapshot] ∧
      s'.pendingFinish = some ⟨handoff, staged.sourceSnapshot, staged.kernelELF, staged.iso⟩) ∧
    (s'.pendingFinish ≠ none → ∀ later, s'.after config later = s' ∧
      ∀ next, ¬FinishAccepted config next s' ∧
        (next.request.serviceName ∈ workServices → ∃ output,
          (handleRequest config next s').1 =
            respond next.request (responseHarnessFailure, output))) ∧
    (s'.pendingFinish ≠ none →
      successorMatches s'.pendingFinish s'.latestSuccessful = true) := by
  intro s s'
  have hchange : Change config event s s' := handleRequest_cases config event s
  have hconsistent : s.Consistent :=
    HostServices.Consistent.after (fun hpending => absurd rfl hpending) config events
  refine ⟨?_, ?_, ?_, ?_, hchange.consistent hconsistent⟩
  · intro hlatest
    generalize s' = t at hchange hlatest ⊢
    cases hchange with
    | same | finished => exact absurd rfl hlatest
    | built staged _ _ hvalidated => exact ⟨staged, rfl, hvalidated⟩
  · intro hpending
    generalize s' = t at hchange hpending ⊢
    cases hchange with
    | same | built => exact absurd rfl hpending
    | finished _ _ _ haccepted => exact haccepted
  · intro haccepted
    generalize s' = t at hchange ⊢
    cases hchange with
    | same hrefused | built _ _ hrefused => exact absurd haccepted hrefused
    | finished handoff staged hopen _ hlatest harguments =>
      exact ⟨handoff, staged, hopen, hlatest, harguments, rfl⟩
  · intro hpending later
    refine ⟨HostServices.after_of_pending hpending config later, fun next => ?_⟩
    exact ⟨((handleRequest_cases config next s').eq_of_pending hpending).2,
      handleRequest_of_pending hpending config⟩

end Carcer.Build
