import Carcer.Experiment.Runtime

/-!
# What an operation of the runtime does

One inversion of the operations, in which every way that an operation may change a run appears once,
with what is known then. The invariants of runs are proved from it.

## Main definitions

* `Ends`: a generation that is about to be archived
* `Effect`: what one operation does to a run

## Main results

* `perform_effect`: an operation has one of the effects
* `performAll_induction`: what every effect preserves holds in every run
-/

namespace Carcer.Experiment

open Carcer.Wire Carcer.Disk Carcer.Guest Carcer.Provenance List

/-! ### Archives -/

/-- The archive of a generation that was finished. -/
structure Finished (archive : ArchivedGeneration) : Prop where
  outcome : archive.metadata.outcome = .completed
  reason : archive.abortReason = none
  content : ∃ handoff snapshot parsed, archive.handoff = some handoff ∧
    archive.sourceSnapshot = some snapshot ∧ handoff.length ≤ archiveHandoffLimit ∧
    utf8Valid handoff = true ∧
    parseSourceSnapshotWithBudget snapshot archive.sourceCapacity = .ok parsed

/-- The archive of a generation that was aborted. -/
structure Aborted (archive : ArchivedGeneration) (reason : Bytes) : Prop where
  outcome : archive.metadata.outcome = .aborted
  handoff : archive.handoff = none
  snapshot : archive.sourceSnapshot = none
  valid : validateAbortReason reason = .ok ()
  reason_eq : archive.abortReason = some reason

/-- A generation that is about to be archived: its start is recorded once more. -/
structure Ends (run : Run) (operation : Operation) (disk : RunDirectory)
    (archive : ArchivedGeneration) : Prop where
  active : run.process.state = .running ∨ run.process.state = .paused
  number : run.process.generationNumber = some archive.generation
  parent : run.process.currentParent = archive.metadata.parent
  transition : run.process.currentTransition = some archive.metadata.transition
  recorded : ∃ suffix, recordHarnessGenerationStart run.disk run.process.identity suffix
    archive.generation = .ok disk
  fresh : ∀ other ∈ run.disk.archives, other.generation ≠ archive.generation
  wellFormed : archive.metadata.WellFormed
  identity : archive.harnessIdentity = run.process.identity
  valid : ∀ identity ∈ archive.harnessIdentity, identity.Valid
  capacity : archive.sourceCapacity = run.process.sourceCapacity
  content : Finished archive ∨
    ∃ fate reason, operation = .abort fate reason ∧ Aborted archive reason

theorem publishArchive_cases (archives : List ArchivedGeneration) (archive : ArchivedGeneration) :
    (∃ error, publishArchive archives archive = (archives, .error error)) ∨
      (∀ other ∈ archives, other.generation ≠ archive.generation) ∧
        publishArchive archives archive = (archives ++ [archive],
          (readArchivedGeneration archive).mapError (.archive archive.generation)) := by
  unfold publishArchive
  split
  · exact .inl ⟨_, rfl⟩
  rename_i hfresh
  refine .inr ⟨fun other hother heq => hfresh ?_, rfl⟩
  exact any_eq_true.mpr ⟨other, hother, decide_eq_true heq⟩

theorem checkArchiveIdentity_eq_ok {harness : Option HarnessIdentity} {u : Unit} :
    checkArchiveIdentity harness = .ok u ↔ ∀ identity ∈ harness, identity.Valid := by
  cases harness with
  | none => simp [checkArchiveIdentity]
  | some identity => simp [checkArchiveIdentity, mapError_eq_ok, HarnessIdentity.Valid]

section Writers

variable {archives : List ArchivedGeneration} {metadata : ArchiveMetadata}
  {handoff snapshot reason : Bytes} {evidence : Bool} {capacity : Budget}
  {harness : Option HarnessIdentity}

theorem writeCompletedArchive_cases :
    (∃ error, writeCompletedArchive archives metadata handoff snapshot capacity harness =
      (archives, .error error)) ∨
    ∃ parsed, metadata.WellFormed ∧ utf8Valid handoff = true ∧
      parseSourceSnapshotWithBudget snapshot capacity = .ok parsed ∧
      (∀ identity ∈ harness, identity.Valid) ∧
      writeCompletedArchive archives metadata handoff snapshot capacity harness =
        publishArchive archives
          ⟨metadata, some handoff, some snapshot, none, capacity, harness⟩ := by
  unfold writeCompletedArchive
  dsimp only
  split
  · exact .inl ⟨_, rfl⟩
  rename_i hchecked
  obtain ⟨_, hmetadata, hchecked⟩ := bind_eq_ok.mp hchecked
  obtain ⟨_, hutf8, hchecked⟩ := bind_eq_ok.mp hchecked
  obtain ⟨parsed, hparsed, hidentity⟩ := bind_eq_ok.mp hchecked
  refine .inr ⟨parsed, ?_, ?_, mapError_eq_ok.mp hparsed,
    checkArchiveIdentity_eq_ok.mp hidentity, rfl⟩
  · simpa [validateArchiveMetadataInput] using hmetadata
  · simpa using hutf8

theorem writeAbortedArchive_cases :
    (∃ error, writeAbortedArchive archives metadata reason evidence capacity harness =
      (archives, .error error)) ∨
    metadata.WellFormed ∧ validateAbortReason reason = .ok () ∧
      (∀ identity ∈ harness, identity.Valid) ∧
      writeAbortedArchive archives metadata reason evidence capacity harness =
        publishArchive archives ⟨metadata, none, none, some reason, capacity, harness⟩ := by
  unfold writeAbortedArchive
  dsimp only
  split
  · exact .inl ⟨_, rfl⟩
  rename_i hchecked
  obtain ⟨_, hmetadata, hchecked⟩ := bind_eq_ok.mp hchecked
  obtain ⟨_, hreason, hchecked⟩ := bind_eq_ok.mp hchecked
  obtain ⟨_, hevidence, hidentity⟩ := bind_eq_ok.mp hchecked
  refine .inr ⟨?_, mapError_eq_ok.mp hreason, checkArchiveIdentity_eq_ok.mp hidentity, rfl⟩
  simpa [validateArchiveMetadataInput] using hmetadata

end Writers

theorem acceptedFinish_eq_some {config} {services : Build.HostServices}
    {arguments pending validated} (hnone : services.pendingFinish = none)
    (h : acceptedFinish config services arguments = some (pending, validated)) :
    pending.handoffMessage.length ≤ archiveHandoffLimit ∧
      utf8Valid pending.handoffMessage = true := by
  obtain ⟨finish, hfinish, h⟩ := Option.bind_eq_some_iff.mp h
  obtain ⟨staged, -, h⟩ := Option.bind_eq_some_iff.mp h
  obtain ⟨rfl, rfl⟩ := Prod.mk.inj (Option.some.inj h)
  rcases Build.finishGeneration_cases config arguments services with
    ⟨-, hsame⟩ | ⟨handoff, staged, -, -, -, hlength, hutf8, haccepted⟩
  · rw [hsame, hnone] at hfinish
    cases hfinish
  · rw [haccepted] at hfinish
    obtain rfl := Option.some.inj hfinish
    exact ⟨hlength, hutf8⟩

/-! ### The effects -/

/-- **What one operation does to a run.** -/
inductive Effect (run : Run) : Operation → Run → Prop
  /-- Nothing: the operation is refused, or it only looks. -/
  | refused (operation : Operation) : Effect run operation run
  | opened {live : Option (Option HarnessIdentity)}
      (valid : ∀ identity ∈ live.join, identity.Valid) :
      Effect run (.reopen live) ⟨run.disk, newCodexOSRun run.disk
        (live.map fun identity => ⟨identity, false, none, none⟩)⟩
  | closed (live : Option (Option HarnessIdentity)) :
      Effect run (.reopen live) ⟨run.disk, close run.process⟩
  | started {fate : Fate} {disk : RunDirectory} (image : Bytes)
      (stopped : run.process.state = .stopped) (unnumbered : run.process.generationNumber = none)
      (recorded : recordHarnessGenerationStart run.disk run.process.identity fate.suffix 0 =
        .ok disk) :
      Effect run (.start fate) ⟨disk, run.process.startedInitial disk.bootstrap image⟩
  | atGate {fate : Fate} {latest : ArchivedGeneration} {transition : Option HarnessGateTransition}
      {pending : Option PendingGenerationFinish} {harness : HarnessStore}
      (stopped : run.process.state = .stopped) (read : readGate run.disk = .ok latest)
      (prepared : prepareIdentity run.disk.harness run.process.identity latest.generation =
        .ok transition)
      (finish : gateFinish latest = .ok pending)
      (recorded : recordIdentity run.disk.harness fate.suffix transition = .ok harness) :
      Effect run (.reopenAtGate fate)
        ⟨{ run.disk with harness := harness }, run.process.reopened latest pending⟩
  | selected (operation : Operation) {selection : Selection} (live : run.process.live.isSome)
      (free : run.process.free = true)
      (select : selectSuccessor run.process = .ok selection ∨
        ∃ parent, selectRollback run.process parent = .ok selection) :
      Effect run operation ⟨run.disk, run.process.selected selection⟩
  /-- The generation that was selected does not start, but its start may be recorded. -/
  | dropped {fate : Fate} {disk : RunDirectory} {selection : Selection}
      (booting : run.process.live.bind LiveRun.operation = some selection)
      (disk_eq : disk = run.disk ∨ ∃ next, nextGeneration run.disk.archives
          run.process.sourceCapacity fate.image selection = .ok next ∧
        recordHarnessGenerationStart run.disk run.process.identity fate.suffix next.number =
          .ok disk) :
      Effect run (.finishTransition fate) ⟨disk, run.process.clearLiveTransition⟩
  | booted {fate : Fate} {disk : RunDirectory} {selection : Selection} {next : NextGeneration}
      {feedback : Directory} {attached : Option OperatorFeedback} (image : Bytes)
      (booting : run.process.live.bind LiveRun.operation = some selection)
      (next_eq : nextGeneration run.disk.archives run.process.sourceCapacity fate.image selection =
        .ok next)
      (recorded : recordHarnessGenerationStart run.disk run.process.identity fate.suffix
        next.number = .ok disk)
      (attach : attachOperatorFeedback disk.feedback disk.archives next.number =
        .ok (feedback, attached)) :
      Effect run (.finishTransition fate)
        ⟨{ disk with feedback := feedback }, run.process.startedLive next image attached⟩
  | startedOffline (operation : Operation) {fate : Fate} {selection : Selection}
      {next : NextGeneration} {feedback : Directory} {attached : Option OperatorFeedback}
      (offline : run.process.live = none)
      (select : selectSuccessor run.process = .ok selection ∨
        ∃ parent, selectRollback run.process parent = .ok selection)
      (next_eq : nextGeneration run.disk.archives run.process.sourceCapacity fate.image selection =
        .ok next)
      (attach : attachOperatorFeedback run.disk.feedback run.disk.archives next.number =
        .ok (feedback, attached)) :
      Effect run operation
        ⟨{ run.disk with feedback := feedback }, run.process.started next next.image attached⟩
  /-- The guest does not stop, or the archive is refused before it is published. -/
  | unarchived (operation : Operation) {disk : RunDirectory} {process : CodexOSRun}
      {suffix : Bytes} {number : UInt64}
      (active : run.process.state = .running ∨ run.process.state = .paused)
      (number_eq : run.process.generationNumber = some number)
      (recorded : recordHarnessGenerationStart run.disk run.process.identity suffix number =
        .ok disk)
      (process_eq : process = run.process ∨ process = run.process.failed) :
      Effect run operation ⟨disk, process⟩
  | ended (operation : Operation) {disk : RunDirectory} {archive : ArchivedGeneration}
      {process : CodexOSRun} (ends : Ends run operation disk archive)
      (process_eq : archive.metadata.outcome = .completed ∧ (∃ handoff snapshot,
          archive.handoff = some handoff ∧ archive.sourceSnapshot = some snapshot ∧
          process =
            run.process.atGate (some (selectedFinish archive.generation handoff snapshot))) ∨
        archive.metadata.outcome = .aborted ∧
          (process = run.process.abortedLive ∨ process = run.process.abortedOffline)) :
      Effect run operation ⟨{ disk with archives := disk.archives ++ [archive] }, process⟩
  /-- The archive is published, and cannot be read. -/
  | unreadable (operation : Operation) {disk : RunDirectory} {archive : ArchivedGeneration}
      {process : CodexOSRun} (ends : Ends run operation disk archive)
      (unread : readArchivedGeneration archive ≠ .ok ())
      (process_eq : process = run.process ∨ process = run.process.failed) :
      Effect run operation ⟨{ disk with archives := disk.archives ++ [archive] }, process⟩
  | halted (operation : Operation) {state : RuntimeState}
      (active : run.process.state = .running ∨ run.process.state = .paused)
      (state_eq : state = .running ∨ state = .paused) :
      Effect run operation ⟨run.disk, { run.process with state := state }⟩
  | leased (generation : UInt64) (frozen : run.process.transitioning = false ∧
        run.process.state = .awaitingNextGeneration ∧ run.process.pendingFinish ≠ none ∧
        run.process.generationNumber = some generation)
      (unleased : run.process.retainedFinish = none) :
      Effect run (.retainGenerationFinish generation)
        ⟨run.disk, { run.process with retainedFinish := some generation }⟩
  | released (generation : UInt64) (lease : run.process.retainedFinish = some generation) :
      Effect run (.releaseGenerationFinish generation)
        ⟨run.disk, { run.process with retainedFinish := none }⟩
  | resized {capacity : Budget} (valid : capacity.Valid)
      (awaiting : run.process.state = .awaitingNextGeneration)
      (free : run.process.transitioning = false ∧ run.process.retainedFinish = none) :
      Effect run (.setSourceCapacity capacity)
        ⟨{ run.disk with sourceCapacity := capacity.bytes },
          { run.process with sourceCapacity := capacity.bytes }⟩

section Operations

variable {run : Run} {operation : Operation} {selected : Except RuntimeError Selection}

theorem exclusive_effect {body : Run → Performed}
    (h : run.process.free = true → Effect run operation (body run).1) :
    Effect run operation (exclusive body run).1 := by
  unfold exclusive
  split
  · rename_i hfree
    exact h hfree
  · exact .refused _

theorem reopen_effect (live : Option (Option HarnessIdentity)) :
    Effect run (.reopen live) (reopen live run).1 := by
  unfold reopen
  split
  · exact .opened (by simp)
  rename_i identity
  split
  · exact .closed _
  rename_i process hprocess
  obtain ⟨_, hvalid, hprocess⟩ := bind_eq_ok.mp hprocess
  cases hprocess
  exact .opened (by simpa using checkArchiveIdentity_eq_ok.mp hvalid)

theorem start_effect (fate : Fate) : Effect run (.start fate) (start fate run).1 := by
  unfold start
  split
  · exact .refused _
  rename_i live hlive
  dsimp only
  split
  iterate 2 exact .refused _
  rename_i image hchecked hboot
  obtain ⟨_, -, hchecked⟩ := bind_eq_ok.mp hchecked
  obtain ⟨_, hstopped, hchecked⟩ := bind_eq_ok.mp hchecked
  obtain ⟨_, hnumber, -⟩ := bind_eq_ok.mp hchecked
  split
  · exact .refused _
  rename_i disk hdisk
  refine .started image ?_ ?_ ?_
  · simpa using hstopped
  · simpa using hnumber
  · rw [CodexOSRun.identity, hlive]
    exact hdisk

theorem reopenAtGate_effect (fate : Fate) :
    Effect run (.reopenAtGate fate) (reopenAtGate fate run).1 := by
  unfold reopenAtGate
  dsimp only
  split
  · exact .refused _
  rename_i reopened hreopened
  simp only [bind_eq_ok] at hreopened
  obtain ⟨_, -, _, hstopped, _, -, latest, hlatest, transition, htransition, _, -, pending,
    hpending, harness, hharness, hreopened⟩ := hreopened
  cases hreopened
  exact .atGate (by simpa using hstopped) hlatest htransition hpending hharness

section Selected

variable (hselected : ∀ selection, selected = .ok selection →
  selectSuccessor run.process = .ok selection ∨
    ∃ parent, selectRollback run.process parent = .ok selection)
include hselected

theorem beginTransition_effect (hlive : run.process.live.isSome) (hfree : run.process.free = true) :
    Effect run operation (beginTransition selected run).1 := by
  unfold beginTransition
  split
  · exact .refused _
  rename_i selection
  split
  · exact .refused _
  · exact .selected operation hlive hfree (hselected selection rfl)

theorem transitionOffline_effect {fate : Fate} (hoffline : run.process.live = none) :
    Effect run operation (transitionOffline selected fate run).1 := by
  unfold transitionOffline
  dsimp only
  split
  · exact .refused _
  rename_i feedback process hnext
  simp only [bind_eq_ok] at hnext
  obtain ⟨selection, hselection, next, hgeneration, _, -, ⟨directory, attached⟩, hattach, hnext⟩ :=
    hnext
  cases hnext
  exact .startedOffline operation hoffline (hselected selection hselection) hgeneration hattach

theorem leaveGate_effect {fate : Fate} (hfree : run.process.free = true) :
    Effect run operation (leaveGate selected fate run).1 := by
  unfold leaveGate
  split
  · rename_i hlive
    exact beginTransition_effect hselected hlive hfree
  · rename_i hlive
    exact transitionOffline_effect hselected (by simpa using hlive)

end Selected

theorem finishTransition_effect (fate : Fate) :
    Effect run (.finishTransition fate) (finishTransition fate run).1 := by
  unfold finishTransition
  split
  · exact .refused _
  rename_i selection hselection
  dsimp only
  split
  iterate 2 exact .dropped hselection (.inl rfl)
  rename_i next image hnext hboot
  split
  · exact .dropped hselection (.inl rfl)
  rename_i disk hdisk
  split
  · exact .dropped hselection (.inr ⟨next, hnext, hdisk⟩)
  · rename_i feedback attached hattach
    exact .booted image hselection hnext hdisk hattach

theorem currentMetadata_eq_ok {process outcome metadata}
    (h : currentMetadata process outcome = .ok metadata) :
    process.generationNumber = some metadata.generation ∧
      process.currentParent = metadata.parent ∧
      process.currentTransition = some metadata.transition ∧ metadata.outcome = outcome := by
  unfold currentMetadata at h
  split at h
  · rename_i number transition hnumber htransition hhardware
    cases h
    exact ⟨hnumber, rfl, htransition, rfl⟩
  · cases h

theorem recordHarnessGenerationStart_archives {disk disk' identity} {suffix : Bytes}
    {generation : UInt64}
    (h : recordHarnessGenerationStart disk identity suffix generation = .ok disk') :
    ∃ harness, disk' = { disk with harness := harness } := by
  unfold recordHarnessGenerationStart at h
  split at h
  · exact ⟨disk.harness, (Except.ok.inj h).symm⟩
  · obtain ⟨harness, -, h⟩ := bind_eq_ok.mp h
    exact ⟨harness, (Except.ok.inj h).symm⟩

/-- **A generation is archived.** The archive is not written, not published or cannot be read, and
the run goes on without it or fails; or the generation has ended. -/
theorem archived_cases (operation : Operation) (archive : ArchivedGeneration)
    {disk : RunDirectory} {suffix : Bytes}
    {written : List ArchivedGeneration × Except RuntimeError Unit}
    (hactive : run.process.state = .running ∨ run.process.state = .paused)
    (hnumber : run.process.generationNumber = some archive.generation)
    (hdisk : recordHarnessGenerationStart run.disk run.process.identity suffix archive.generation =
      .ok disk)
    (hwritten : (∃ error, written = (run.disk.archives, .error error)) ∨
      written = publishArchive run.disk.archives archive ∧
        ((∀ other ∈ run.disk.archives, other.generation ≠ archive.generation) →
          Ends run operation disk archive)) :
    (∃ archives error, written = (archives, .error error) ∧
      ∀ process, process = run.process ∨ process = run.process.failed →
        Effect run operation ⟨{ disk with archives := archives }, process⟩) ∨
    ∃ u, written = (disk.archives ++ [archive], .ok u) ∧ Ends run operation disk archive := by
  obtain ⟨harness, rfl⟩ := recordHarnessGenerationStart_archives hdisk
  rcases hwritten with ⟨error, rfl⟩ | ⟨rfl, hends⟩
  · exact .inl ⟨_, error, rfl, fun _ => .unarchived _ hactive hnumber hdisk⟩
  rcases publishArchive_cases run.disk.archives archive with ⟨error, hpublish⟩ | ⟨hfresh, hpublish⟩
  · exact .inl ⟨_, error, hpublish, fun _ => .unarchived _ hactive hnumber hdisk⟩
  rw [hpublish]
  cases hread : readArchivedGeneration archive with
  | error error =>
    refine .inl ⟨_, _, rfl, fun _ => .unreadable _ (hends hfresh) ?_⟩
    rw [hread]
    simp
  | ok u => exact .inr ⟨u, rfl, hends hfresh⟩

theorem complete_effect (fate : Fate) (config : Build.ServiceConfig)
    (services : Build.HostServices) (arguments : List Bytes) :
    Effect run (.complete fate config services arguments)
      (complete fate config services arguments run).1 := by
  unfold complete
  split
  · exact .refused _
  rename_i hservices
  split
  · exact .refused _
  rename_i pending validated haccepted
  have hnone : services.pendingFinish = none := by
    by_contra hsome
    exact hservices (.inr (.inl (Option.isSome_iff_ne_none.mpr hsome)))
  have hrunning : run.process.state = .running := by
    by_contra hstate
    exact hservices (.inr (.inr hstate))
  obtain ⟨hlength, hutf8⟩ := acceptedFinish_eq_some hnone haccepted
  unfold completeLiveGeneration
  split
  · exact .refused _
  split
  · exact .refused _
  split
  · exact .refused _
  rename_i metadata hmetadata
  obtain ⟨hnumber, hparent, htransition, houtcome⟩ := currentMetadata_eq_ok hmetadata
  split
  · exact .refused _
  rename_i disk hdisk
  obtain ⟨harness, rfl⟩ := recordHarnessGenerationStart_archives hdisk
  split
  · exact .unarchived _ (.inl hrunning) hnumber hdisk (.inl rfl)
  rcases archived_cases (.complete fate config services arguments)
    ⟨metadata, some pending.handoffMessage, some pending.sourceSnapshot, none,
      run.process.sourceCapacity, run.process.identity⟩ (.inl hrunning) hnumber hdisk
    ((@writeCompletedArchive_cases run.disk.archives metadata pending.handoffMessage
      pending.sourceSnapshot run.process.sourceCapacity run.process.identity).imp_right (by
      rintro ⟨parsed, hwellFormed, -, hparsed, hvalid, hwrite⟩
      exact ⟨hwrite, fun hfresh => ⟨.inl hrunning, hnumber, hparent, htransition, ⟨_, hdisk⟩,
        hfresh, hwellFormed, rfl, hvalid, rfl,
        .inl ⟨houtcome, rfl, _, _, parsed, rfl, rfl, hlength, hutf8, hparsed⟩⟩⟩)) with
    ⟨archives, error, hwrite, heffect⟩ | ⟨u, hwrite, hends⟩
  · rw [hwrite]
    exact heffect _ (.inr rfl)
  · rw [hwrite]
    exact .ended _ hends (.inl ⟨houtcome, _, _, rfl, rfl, rfl⟩)

/-- A generation that is aborted is archived, or the run goes on without it or fails. -/
theorem aborted_effect (fate : Fate) (reason : Bytes) {evidence : Bool} {metadata}
    {disk : RunDirectory} {suffix : Bytes} {harness} {failed aborted : CodexOSRun}
    (hactive : run.process.state = .running ∨ run.process.state = .paused)
    (hmetadata : currentMetadata run.process .aborted = .ok metadata)
    (hdisk : recordHarnessGenerationStart run.disk run.process.identity suffix
      metadata.generation = .ok disk)
    (hharness : harness = run.process.identity)
    (hfailed : failed = run.process ∨ failed = run.process.failed)
    (haborted : aborted = run.process.abortedLive ∨ aborted = run.process.abortedOffline) :
    Effect run (.abort fate reason)
      (match writeAbortedArchive disk.archives metadata reason evidence run.process.sourceCapacity
          harness with
        | (archives, .error error) =>
          ((⟨{ disk with archives := archives }, failed⟩, .error error) : Performed)
        | (archives, .ok _) => (⟨{ disk with archives := archives }, aborted⟩, .ok ())).1 := by
  obtain ⟨store, rfl⟩ := recordHarnessGenerationStart_archives hdisk
  obtain ⟨hnumber, hparent, htransition, houtcome⟩ := currentMetadata_eq_ok hmetadata
  rcases archived_cases (.abort fate reason)
    ⟨metadata, none, none, some reason, run.process.sourceCapacity, harness⟩ hactive hnumber hdisk
    ((@writeAbortedArchive_cases run.disk.archives metadata reason evidence
      run.process.sourceCapacity harness).imp_right (by
      rintro ⟨hwellFormed, hvalidReason, hvalid, hwrite⟩
      exact ⟨hwrite, fun hfresh => ⟨hactive, hnumber, hparent, htransition, ⟨_, hdisk⟩, hfresh,
        hwellFormed, hharness, hvalid, rfl,
        .inr ⟨fate, reason, rfl, houtcome, rfl, rfl, hvalidReason, rfl⟩⟩⟩)) with
    ⟨archives, error, hwrite, heffect⟩ | ⟨u, hwrite, hends⟩
  · rw [hwrite]
    exact heffect _ hfailed
  · rw [hwrite]
    exact .ended _ hends (.inr ⟨houtcome, haborted⟩)

theorem abortLiveGeneration_effect (fate : Fate) (reason : Bytes) :
    Effect run (.abort fate reason) (abortLiveGeneration fate reason run).1 := by
  unfold abortLiveGeneration
  dsimp only
  split
  · exact .refused _
  rename_i metadata hchecked
  obtain ⟨_, hreason, hchecked⟩ := bind_eq_ok.mp hchecked
  obtain ⟨_, hstate, hmetadata⟩ := bind_eq_ok.mp hchecked
  have hactive : run.process.state = .running ∨ run.process.state = .paused := by
    rw [failIf_eq_ok, not_and_or, not_not, not_not] at hstate
    exact hstate
  have hnumber := (currentMetadata_eq_ok hmetadata).1
  split
  · exact .refused _
  rename_i disk hdisk
  split
  · exact .unarchived _ hactive hnumber hdisk (.inl rfl)
  split
  · exact .unarchived _ hactive hnumber hdisk (.inl rfl)
  exact aborted_effect fate reason hactive hmetadata hdisk rfl (.inr rfl) (.inl rfl)

theorem abortOffline_effect (hoffline : run.process.live = none) (fate : Fate) (reason : Bytes) :
    Effect run (.abort fate reason) (abortOffline fate reason run).1 := by
  have hidentity : run.process.identity = none := by rw [CodexOSRun.identity, hoffline]; rfl
  unfold abortOffline
  dsimp only
  split
  · exact .refused _
  rename_i metadata hchecked
  simp only [bind_eq_ok] at hchecked
  obtain ⟨_, hreason, _, hstate, current, hmetadata, _, -, hchecked⟩ := hchecked
  obtain rfl := Except.ok.inj hchecked
  have hactive : run.process.state = .running ∨ run.process.state = .paused :=
    .inl (by simpa using hstate)
  have hdisk : recordHarnessGenerationStart run.disk run.process.identity fate.suffix
      current.generation = .ok run.disk := by rw [hidentity]; rfl
  exact aborted_effect fate reason hactive hmetadata hdisk hidentity.symm (.inl rfl) (.inr rfl)

theorem setSourceCapacity_effect (capacity : Budget) :
    Effect run (.setSourceCapacity capacity) (setSourceCapacity capacity run).1 := by
  unfold setSourceCapacity
  dsimp only
  split
  · exact .refused _
  rename_i hchecked
  obtain ⟨_, hvalid, hchecked⟩ := bind_eq_ok.mp hchecked
  obtain ⟨number, hgate, -⟩ := bind_eq_ok.mp hchecked
  obtain ⟨_, -, hgate⟩ := bind_eq_ok.mp hgate
  split at hgate
  · cases hgate
  obtain ⟨_, hawaiting, -⟩ := bind_eq_ok.mp hgate
  simp only [failIf_eq_ok, not_or, not_not, Bool.not_eq_true, Option.isSome_eq_false_iff,
    Option.isNone_iff_eq_none] at hawaiting
  exact .resized (Budget.validate_eq_ok.mp (mapError_eq_ok.mp hvalid)) hawaiting.1
    ⟨hawaiting.2.2, hawaiting.2.1⟩

/-- **An operation has one of the effects.** -/
theorem perform_effect (run : Run) (operation : Operation) :
    Effect run operation (perform run operation).1 := by
  cases operation with
  | reopen live => exact reopen_effect live
  | start fate => exact exclusive_effect fun _ => start_effect fate
  | reopenAtGate fate => exact exclusive_effect fun _ => reopenAtGate_effect fate
  | continueGeneration fate =>
    exact exclusive_effect fun hfree => leaveGate_effect (fun _ h => .inl h) hfree
  | forkFromGeneration fate parent =>
    exact exclusive_effect fun hfree => leaveGate_effect (fun _ h => .inr ⟨parent, h⟩) hfree
  | finishTransition fate => exact finishTransition_effect fate
  | complete fate config services arguments =>
    exact exclusive_effect fun _ => complete_effect fate config services arguments
  | abort fate reason =>
    refine exclusive_effect fun _ => ?_
    unfold abort
    split
    · exact abortLiveGeneration_effect fate reason
    · rename_i hlive
      exact abortOffline_effect (by simpa using hlive) fate reason
  | pause =>
    refine exclusive_effect fun _ => ?_
    unfold pause
    split
    · exact .refused _
    · rename_i hpause
      exact .halted _ (.inl (by simp only [not_or, not_not] at hpause; exact hpause.2.1)) (.inr rfl)
  | resume =>
    refine exclusive_effect fun _ => ?_
    unfold resume
    split
    · exact .refused _
    rename_i hresume
    exact .halted _ (.inr (by simp only [not_or, not_not] at hresume; exact hresume.2.1))
      (.inl rfl)
  | retainGenerationFinish generation =>
    simp only [perform, retainGenerationFinish]
    split
    · exact .refused _
    rename_i hretain
    simp only [not_or, not_not, Bool.not_eq_true, Option.isSome_eq_false_iff,
      Option.isNone_iff_eq_none] at hretain
    exact .leased generation ⟨hretain.1, hretain.2.2.1, hretain.2.2.2.1, hretain.2.2.2.2⟩
      hretain.2.1
  | releaseGenerationFinish generation =>
    simp only [perform, releaseGenerationFinish]
    split
    · rename_i hlease
      exact .released generation hlease
    · exact .refused _
  | setSourceCapacity capacity => exact exclusive_effect fun _ => setSourceCapacity_effect capacity
  | bootstrapAtGate => exact exclusive_effect fun _ => .refused _

end Operations

/-! ### Runs -/

theorem performAll_concat (run : Run) (operations : List Operation) (operation : Operation) :
    performAll run (operations ++ [operation]) =
      (perform (performAll run operations) operation).1 := by
  rw [performAll, foldl_append]
  rfl

/-- Every operation of a run meets a condition in the state that it finds. -/
def Throughout (condition : Run → Operation → Prop) (run : Run) (operations : List Operation) :
    Prop :=
  ∀ before operation after, operations = before ++ operation :: after →
    condition (performAll run before) operation

theorem throughout_nil (condition : Run → Operation → Prop) (run : Run) :
    Throughout condition run [] := by
  intro before operation after heq
  simp at heq

variable {condition : Run → Operation → Prop} {operations : List Operation} {run : Run}

theorem Throughout.concat {operation} (h : Throughout condition run operations)
    (hlast : condition (performAll run operations) operation) :
    Throughout condition run (operations ++ [operation]) :=
  forall_split_concat h hlast

theorem Throughout.of_concat {operation}
    (h : Throughout condition run (operations ++ [operation])) :
    Throughout condition run operations ∧ condition (performAll run operations) operation :=
  ⟨fun before other after heq => h before other (after ++ [operation]) (by simp [heq]),
    h operations operation [] rfl⟩

/-- **What every operation preserves holds in every run**, where each operation meets a
condition. -/
theorem performAll_induction {condition : Run → Operation → Prop} {invariant : Run → Prop}
    {run : Run} (hrun : invariant run)
    (hstep : ∀ run operation, invariant run → condition run operation →
      invariant (perform run operation).1) {operations} (h : Throughout condition run operations) :
    invariant (performAll run operations) := by
  induction operations using List.reverseRecOn with
  | nil => exact hrun
  | append_singleton operations operation ih =>
    obtain ⟨hbefore, hlast⟩ := h.of_concat
    rw [performAll_concat]
    exact hstep _ _ (ih hbefore) hlast

end Carcer.Experiment
