import Carcer.Experiment.RuntimeSteps
import Carcer.Provenance.HarnessRuns
import Carcer.Provenance.HarnessStarts

/-!
# The archives of a run

The invariant of the runtime. The archives on disk are a history that is read without an error; a
generation that is under way extends it, with the parent and the transition that the object has in
memory; and at the gate the object shows what the latest archive says. It holds however generations
are started, finished, aborted, continued and forked, and however often the run is closed and
opened.

## Main definitions

* `StartRecorded`: what recording a start does to the disk
* `AtGate`, `UnderWay`, `Selected`: what the object has in memory
* `Sound`: the invariant

## Main results

* `loadHistory_eq_ok`: the archives of a sound run are loaded as they are
* `Sound.step`, `sound_performAll`: the invariant holds in every run
-/

namespace Carcer.Experiment

open Carcer.Wire Carcer.Disk Carcer.Guest Carcer.Provenance List

/-! ### What the operations keep of the object -/

section Updates

variable (process : CodexOSRun) {change : LiveRun → LiveRun}

/-- What is being booted. -/
def CodexOSRun.booting : Option Selection := process.live.bind LiveRun.operation

theorem bind_withLive {α : Type} {field : LiveRun → Option α}
    (h : ∀ live, field (change live) = field live) :
    (process.live.map change).bind field = process.live.bind field := by
  cases hlive : process.live with
  | none => rfl
  | some live => exact h live

theorem bind_cleared {α : Type} {field : LiveRun → Option α}
    (h : ∀ live, field (change live) = none) : (process.live.map change).bind field = none := by
  cases hlive : process.live with
  | none => rfl
  | some live => exact h live

end Updates

/-! ### Recording a start -/

/-- The start record of a number. -/
def startOf (disk : RunDirectory) (generation : UInt64) : Option Entry :=
  Named.entry disk.harness.generations (generationName generation)

/-- What recording a start does to the disk. -/
structure StartRecorded (disk : RunDirectory) (harness : Option HarnessIdentity)
    (generation : UInt64) (disk' : RunDirectory) : Prop where
  same : ∃ generations,
    disk' = { disk with harness := { disk.harness with generations := generations } }
  keeps : KeepsStarts disk'.harness.generations
  before : ∀ identity ∈ harness, startOf disk generation = none ∨
    startOf disk generation = some (.file (startRecord generation identity)) ∧
      (startRecord generation identity).length ≤ harnessIdentityLimit
  record : ∀ identity ∈ harness,
    startOf disk' generation = some (.file (startRecord generation identity))
  others : ∀ other, other ≠ generation → startOf disk' other = startOf disk other
  unchanged : harness = none → disk' = disk

variable {suffix : Bytes} {archive : ArchivedGeneration} {run run' : Run} {operation : Operation}
  {process : CodexOSRun} {disk : RunDirectory}

theorem startRecorded_of_ok {disk disk' : RunDirectory} {harness} {generation : UInt64}
    (h : KeepsStarts disk.harness.generations)
    (hrecord : recordHarnessGenerationStart disk harness suffix generation = .ok disk') :
    StartRecorded disk harness generation disk' := by
  cases harness with
  | none =>
    cases hrecord
    exact ⟨⟨disk.harness.generations, rfl⟩, h, by simp, by simp, fun _ _ => rfl, fun _ => rfl⟩
  | some identity =>
    obtain ⟨store, hstore, hrecord⟩ := bind_eq_ok.mp hrecord
    cases hrecord
    obtain ⟨-, hbefore, hkeeps, hsame, hentry, hothers⟩ :=
      recordGenerationStart_eq_ok h (mapError_eq_ok.mp hstore)
    refine ⟨⟨store.generations, by rw [hsame]⟩, hkeeps, ?_, ?_, hothers, fun h => nomatch h⟩
    · rintro _ ⟨⟩
      exact hbefore
    · rintro _ ⟨⟩
      exact hentry

/-! ### Archives that can be read -/

/-- An identity that has a readable start record is read back from an archive. -/
theorem readArchiveIdentity_eq_ok {identity : HarnessIdentity} {generation : UInt64}
    (hvalid : identity.Valid)
    (hlimit : (startRecord generation identity).length ≤ harnessIdentityLimit) :
    readArchiveIdentity identity = .ok () := by
  have hlength := length_print_le_startRecord generation identity (Nat.zero_le 1)
  have hencoded : encodeHarnessIdentity identity = .ok (encodeHarnessJSON identity.asJSON) :=
    bind_eq_ok.mpr ⟨(), hvalid, rfl⟩
  have hle : (encodeHarnessJSON identity.asJSON).length ≤ harnessIdentityLimit := by
    rw [encodeHarnessJSON, length_append, length_singleton]
    omega
  have hparse : parseHarnessIdentity (encodeHarnessJSON identity.asJSON) = .ok identity :=
    parseHarnessIdentity_print hvalid 0 (by decide) hle
  rw [readArchiveIdentity, hencoded]
  refine bind_eq_ok.mpr ⟨(), failIf_eq_ok.mpr ?_, failIf_eq_ok.mpr ?_⟩
  · rw [not_lt, archiveHarnessIdentityLimit]
    exact hle
  · exact not_not.mpr hparse

theorem Finished.readCompleted (h : Finished archive) : readCompleted archive = .ok () := by
  obtain ⟨handoff, snapshot, parsed, hhandoff, hsnapshot, hlength, hutf8, hparsed⟩ := h.content
  rw [Experiment.readCompleted, hhandoff, hsnapshot]
  refine bind_eq_ok.mpr ⟨(), failIf_eq_ok.mpr ?_, bind_eq_ok.mpr ⟨(), failIf_eq_ok.mpr ?_, ?_⟩⟩
  · rw [not_or, not_lt, Bool.not_eq_false]
    exact ⟨hlength, hutf8⟩
  · exact not_lt.mpr (length_le_snapshotLimit hparsed)
  · rw [hparsed]

theorem Aborted.readAborted {reason : Bytes}
    (h : Aborted archive reason) : readAborted archive = .ok () := by
  rw [Experiment.readAborted, h.reason_eq]
  exact mapError_eq_ok.mpr h.valid

/-- What an archive can be: finished or aborted. -/
def Written (archive : ArchivedGeneration) : Prop :=
  Finished archive ∨ ∃ reason, Aborted archive reason

theorem readArchivedGeneration_eq_ok
    (hcapacity : archive.sourceCapacity.Valid) (hwellFormed : archive.metadata.WellFormed)
    (hidentity : ∀ identity ∈ archive.harnessIdentity, readArchiveIdentity identity = .ok ())
    (hwritten : Written archive) : readArchivedGeneration archive = .ok () := by
  have hcontent : readContent archive = .ok () := by
    rcases hwritten with hfinished | ⟨reason, haborted⟩
    · rw [readContent, hfinished.outcome]
      exact hfinished.readCompleted
    · rw [readContent, haborted.outcome]
      exact haborted.readAborted
  refine bind_eq_ok.mpr ⟨(), failIf_eq_ok.mpr (not_not.mpr hcapacity), bind_eq_ok.mpr
    ⟨(), failIf_eq_ok.mpr (not_not.mpr hwellFormed), ?_⟩⟩
  cases hharness : archive.harnessIdentity with
  | none => exact hcontent
  | some identity => exact bind_eq_ok.mpr ⟨(), hidentity identity hharness, hcontent⟩

/-! ### The gate -/

theorem gateFinish_finished (h : Finished archive) :
    ∃ handoff snapshot, archive.handoff = some handoff ∧ archive.sourceSnapshot = some snapshot ∧
      gateFinish archive = .ok (some (selectedFinish archive.generation handoff snapshot)) := by
  obtain ⟨handoff, snapshot, parsed, hhandoff, hsnapshot, -, -, hparsed⟩ := h.content
  refine ⟨handoff, snapshot, hhandoff, hsnapshot, ?_⟩
  rw [gateFinish, if_pos h.outcome, hhandoff, hsnapshot]
  exact if_pos (length_le_snapshotLimit hparsed)

theorem gateFinish_aborted
    (h : archive.metadata.outcome = .aborted) : gateFinish archive = .ok none := by
  rw [gateFinish, if_neg (by rw [h]; decide)]

/-- A successor is selected behind a completed generation only. -/
theorem completed_of_gateFinish {pending}
    (h : gateFinish archive = .ok (some pending)) : archive.metadata.outcome = .completed := by
  unfold gateFinish at h
  split at h
  · assumption
  · cases h

/-! ### The invariant -/

/-- The object at the gate shows the latest archive. -/
def AtGate (run : Run) : Prop :=
  ∃ before latest, run.disk.archives = before ++ [latest] ∧
    run.process.generationNumber = some latest.generation ∧
    gateFinish latest = .ok run.process.pendingFinish ∧
    run.process.previousHandoff =
      run.process.pendingFinish.map PendingGenerationFinish.handoffMessage

/-- A generation is under way: it extends the archives, or it has the number of an archive, so that
it will never be archived; its start is recorded. -/
def UnderWay (run : Run) : Prop :=
  ∃ number transition, run.process.generationNumber = some number ∧
    run.process.currentTransition = some transition ∧
    ((∀ outcome, Extends (run.disk.archives.map ArchivedGeneration.metadata)
      ⟨number, run.process.currentParent, transition, outcome⟩) ∨
      ∃ archive ∈ run.disk.archives, archive.generation = number) ∧
    ∀ identity ∈ run.process.identity,
      startOf run.disk number = some (.file (startRecord number identity))

/-- What was selected at the gate. -/
def Selected (process : CodexOSRun) : Selection → Prop
  | .successor number pending => process.generationNumber = some number ∧
      process.pendingFinish = some pending ∧ number ≠ lastGeneration
  | .rollback number parent => process.generationNumber = some number ∧ parent < number ∧
      number ≠ lastGeneration

/-- **The invariant of the runtime.** -/
structure Sound (run : Run) : Prop where
  history : History (run.disk.archives.map ArchivedGeneration.metadata)
  readable : ∀ archive ∈ run.disk.archives, readArchivedGeneration archive = .ok ()
  written : ∀ archive ∈ run.disk.archives, Written archive
  starts : KeepsStarts run.disk.harness.generations
  capacity : run.disk.sourceCapacity.Valid ∧ run.process.sourceCapacity.Valid
  identity : ∀ identity ∈ run.process.identity, identity.Valid
  stopped : run.process.state = .stopped → run.process.currentParent = none
  gate : run.process.state = .awaitingNextGeneration → AtGate run
  underWay : run.process.state = .running ∨ run.process.state = .paused → UnderWay run
  booting : ∀ selection, run.process.booting = some selection →
    run.process.state = .awaitingNextGeneration ∧ run.process.transitioning = true ∧
      Selected run.process selection

theorem Sound.not_booting (h : Sound run)
    (hstate : run.process.state ≠ .awaitingNextGeneration) : run.process.booting = none := by
  cases hbooting : run.process.booting with
  | none => rfl
  | some selection => exact absurd (h.booting selection hbooting).1 hstate

theorem ne_awaiting {state : RuntimeState} (h : state = .running ∨ state = .paused) :
    state ≠ .awaitingNextGeneration := by
  rcases h with rfl | rfl <;> decide

/-- The archives are numbered by their places. -/
theorem Sound.number (h : Sound run) {i : ℕ}
    (hi : run.disk.archives[i]? = some archive) : archive.generation.toNat = i :=
  h.history.number (by rw [getElem?_map, hi]; rfl)

theorem Sound.eq_of_generation (h : Sound run) {archive other}
    (harchive : archive ∈ run.disk.archives) (hother : other ∈ run.disk.archives)
    (heq : archive.generation = other.generation) : archive = other := by
  obtain ⟨i, hi⟩ := mem_iff_getElem?.mp harchive
  obtain ⟨j, hj⟩ := mem_iff_getElem?.mp hother
  have hnumber := h.number hi
  have hnumber' := h.number hj
  rw [heq] at hnumber
  obtain rfl : i = j := hnumber.symm.trans hnumber'
  exact Option.mem_unique hi hj

theorem Sound.toNat_lt (h : Sound run) (harchive : archive ∈ run.disk.archives) :
    archive.generation.toNat < run.disk.archives.length := by
  obtain ⟨i, hi⟩ := mem_iff_getElem?.mp harchive
  rw [h.number hi]
  exact (List.getElem?_eq_some_iff.mp hi).1

/-- **The archives of a sound run are loaded as they are.** -/
theorem loadHistory_eq_ok (h : Sound run) :
    loadHistory run.disk.archives = .ok run.disk.archives := by
  have hsorted : run.disk.archives.Pairwise fun a b => a.generation ≤ b.generation := by
    rw [pairwise_iff_getElem]
    intro i j hi hj hij
    have hfirst := h.number (getElem?_eq_getElem hi)
    have hsecond := h.number (getElem?_eq_getElem hj)
    rw [UInt64.le_iff_toNat_le]
    omega
  have hload : loadArchivedGenerations run.disk.archives = .ok run.disk.archives := by
    refine bind_eq_ok.mpr ⟨(), forM_eq_ok.mpr fun archive harchive => ?_, ?_⟩
    · exact mapError_eq_ok.mpr (h.readable archive harchive)
    · rw [hsorted.insertionSort_eq]
      rfl
  refine bind_eq_ok.mpr ⟨_, hload, bind_eq_ok.mpr ⟨(), mapError_eq_ok.mpr ?_, rfl⟩⟩
  exact (validateArchivedHistory_eq_ok.mpr h.history).1

/-- What is loaded is well formed, whatever the directory held. -/
theorem wellFormed_of_loaded {directory loaded}
    (h : loadArchivedGenerations directory = .ok loaded) :
    ∀ archive ∈ loaded.map ArchivedGeneration.metadata, archive.WellFormed := by
  obtain ⟨⟨⟩, hread, hsorted⟩ := bind_eq_ok.mp h
  cases hsorted
  intro metadata hmetadata
  obtain ⟨archive, harchive, rfl⟩ := mem_map.mp hmetadata
  rw [mem_insertionSort] at harchive
  have hread := mapError_eq_ok.mp (forM_eq_ok.mp hread archive harchive)
  obtain ⟨⟨⟩, -, hread⟩ := bind_eq_ok.mp hread
  obtain ⟨⟨⟩, hwell, -⟩ := bind_eq_ok.mp hread
  exact not_not.mp (failIf_eq_ok.mp hwell)

/-- **The check of a loaded history returns, and accepts the histories, exactly where an archive
was loaded.** -/
theorem runArchivedHistory_loaded {directory loaded : List ArchivedGeneration}
    (h : loadArchivedGenerations directory = .ok loaded) :
    ((runArchivedHistory (loaded.map ArchivedGeneration.metadata)).isSome ∧
      (runArchivedHistory (loaded.map ArchivedGeneration.metadata) = some (.ok ()) ↔
        History (loaded.map ArchivedGeneration.metadata))) ↔ loaded ≠ [] := by
  constructor
  · rintro ⟨hreturns, -⟩ rfl
    rw [map_nil, runArchivedHistory_nil] at hreturns
    cases hreturns
  · intro hne
    have hwell := wellFormed_of_loaded h
    rw [runArchivedHistory_eq_some (mt map_eq_nil_iff.mp hne)]
    refine ⟨rfl, ⟨fun hvalid => ?_, fun hhistory => ?_⟩⟩
    · exact validateArchivedHistory_eq_ok.mp ⟨Option.some.inj hvalid, hwell⟩
    · exact congrArg some (validateArchivedHistory_eq_ok.mpr hhistory).1

/-- A finished generation. -/
def finishedArchive : ArchivedGeneration :=
  ⟨⟨0, none, .initial, .completed⟩, some (ascii "handoff"), some [0, 0], none, 0, none⟩

/-- Its successor, which is aborted. -/
def abortedArchive : ArchivedGeneration :=
  ⟨⟨1, some 0, .successor, .aborted⟩, none, none, none, 0, none⟩

/-- The two archives, which the directory lists the other way round. -/
theorem runArchivedHistory_loaded_first :
    runArchivedHistory [finishedArchive.metadata, abortedArchive.metadata] = some (.ok ()) ↔
      History [finishedArchive.metadata, abortedArchive.metadata] := by
  have hloaded : loadArchivedGenerations [abortedArchive, finishedArchive] =
      .ok [finishedArchive, abortedArchive] := by decide +kernel
  exact ((runArchivedHistory_loaded hloaded).mpr (by simp)).2

/-- A run without archives loads, and the check of its history panics. -/
theorem runArchivedHistory_empty :
    loadArchivedGenerations [] = .ok [] ∧ runArchivedHistory [] = none :=
  ⟨rfl, runArchivedHistory_nil⟩

/-! ### A generation that ends -/

section Ending

variable {disk : RunDirectory} {archive : ArchivedGeneration}

section

variable (hends : Ends run operation disk archive)
include hends

theorem Ends.written : Written archive := by
  rcases hends.content with hfinished | ⟨fate, reason, -, haborted⟩
  · exact .inl hfinished
  · exact .inr ⟨reason, haborted⟩

/-- What is archived can be read: the identity is read back because its start record was. -/
theorem Ends.readable (h : Sound run) : readArchivedGeneration archive = .ok () := by
  obtain ⟨suffix, hrecorded⟩ := hends.recorded
  have hstart := startRecorded_of_ok h.starts hrecorded
  obtain ⟨number, transition, hnumber, -, -, hunder⟩ := h.underWay hends.active
  obtain rfl : archive.generation = number := Option.mem_unique hends.number hnumber
  refine readArchivedGeneration_eq_ok (hends.capacity ▸ h.capacity.2) hends.wellFormed
    (fun identity hidentity => ?_) hends.written
  have hmem : identity ∈ run.process.identity := hends.identity ▸ hidentity
  rcases hstart.before identity hmem with hnone | ⟨-, hlimit⟩
  · rw [hunder identity hmem] at hnone
    cases hnone
  · exact readArchiveIdentity_eq_ok (hends.valid identity hidentity) hlimit

theorem Ends.extends (h : Sound run) :
    Extends (run.disk.archives.map ArchivedGeneration.metadata) archive.metadata := by
  obtain ⟨number, transition, hnumber, htransition, hextends, -⟩ := h.underWay hends.active
  obtain rfl : archive.generation = number := Option.mem_unique hends.number hnumber
  obtain rfl : archive.metadata.transition = transition :=
    Option.mem_unique hends.transition htransition
  rcases hextends with hextends | ⟨other, hother, heq⟩
  · have hmetadata := hextends archive.metadata.outcome
    rw [hends.parent] at hmetadata
    exact hmetadata
  · exact absurd heq (hends.fresh other hother)

theorem Ends.archives_eq : disk.archives = run.disk.archives := by
  obtain ⟨suffix, hrecorded⟩ := hends.recorded
  obtain ⟨harness, rfl⟩ := recordHarnessGenerationStart_archives hrecorded
  rfl

end

end Ending

/-! ### A generation that starts -/

section Starting

variable {selection : Selection} {next : NextGeneration} {image : Bool} {capacity : Budget}

theorem requireGate_eq_ok {process u} (h : requireGate process = .ok u) :
    (process.live.isSome → process.transitioning = false) ∧ process.retainedFinish = none ∧
      process.state = .awaitingNextGeneration := by
  obtain ⟨_, htransitioning, h⟩ := bind_eq_ok.mp h
  obtain ⟨_, hretained, hstate⟩ := bind_eq_ok.mp h
  refine ⟨fun hlive => ?_, by simpa using hretained, by simpa using hstate⟩
  simpa [hlive] using htransitioning

theorem selected_of_select {process} (h : selectSuccessor process = .ok selection ∨
      ∃ parent, selectRollback process parent = .ok selection) :
    Selected process selection ∧ (process.live.isSome → process.transitioning = false) ∧
      process.retainedFinish = none ∧ process.state = .awaitingNextGeneration := by
  rcases h with h | ⟨parent, h⟩
  · obtain ⟨_, hgate, h⟩ := bind_eq_ok.mp h
    refine ⟨?_, requireGate_eq_ok hgate⟩
    split at h
    · rename_i pending number hpending hnumber
      obtain ⟨_, hlast, h⟩ := bind_eq_ok.mp h
      cases h
      exact ⟨hnumber, hpending, by simpa using hlast⟩
    · cases h
  · obtain ⟨_, hgate, h⟩ := bind_eq_ok.mp h
    refine ⟨?_, requireGate_eq_ok hgate⟩
    split at h
    · cases h
    rename_i number hnumber
    obtain ⟨_, hparent, h⟩ := bind_eq_ok.mp h
    obtain ⟨_, hlast, h⟩ := bind_eq_ok.mp h
    cases h
    exact ⟨hnumber, by simpa using hparent, by simpa using hlast⟩

theorem toNat_succ {number : UInt64} (h : number ≠ lastGeneration) :
    (number + 1).toNat = number.toNat + 1 := by
  have hne : number.toNat ≠ 2 ^ 64 - 1 := fun heq => h (UInt64.toNat_inj.mp heq)
  have hlt := number.toNat_lt
  rw [UInt64.toNat_add, UInt64.toNat_one, Nat.mod_eq_of_lt (by omega)]

theorem inspectGeneration_eq_ok {archives} {generation : UInt64}
    {archive} (h : inspectGeneration archives generation = .ok archive) :
    archive ∈ archives ∧ archive.generation = generation := by
  unfold inspectGeneration at h
  split at h
  · cases h
  rename_i found hfound
  obtain ⟨_, -, h⟩ := bind_eq_ok.mp h
  cases h
  exact ⟨mem_of_find?_eq_some hfound, by simpa using find?_some hfound⟩

theorem rollbackHandoff_eq_ok {archive} {handoff : Bytes}
    (h : rollbackHandoff archive capacity = .ok handoff) :
    archive.metadata.outcome = .completed := by
  unfold rollbackHandoff at h
  split at h
  · assumption
  · cases h
  · cases h

/-- **What starts next extends the archives**: as the successor of the last one, or from an earlier
one that was completed. -/
theorem extends_nextGeneration (h : Sound run) (hgate : AtGate run)
    (hselected : Selected run.process selection)
    (hnext : nextGeneration run.disk.archives capacity image selection = .ok next)
    (outcome : Outcome) :
    Extends (run.disk.archives.map ArchivedGeneration.metadata)
      ⟨next.number, some next.parent, next.transition, outcome⟩ := by
  obtain ⟨before, latest, harchives, hnumber, hfinish, -⟩ := hgate
  have hlatest : run.disk.archives[before.length]? = some latest := by simp [harchives]
  have hplace := h.number hlatest
  have hlength : run.disk.archives.length = before.length + 1 := by simp [harchives]
  cases selection with
  | successor number pending =>
    obtain ⟨hsome, hpending, hlast⟩ := hselected
    obtain rfl : latest.generation = number := Option.mem_unique hnumber hsome
    obtain ⟨_, -, hnext⟩ := bind_eq_ok.mp hnext
    cases hnext
    refine ⟨?_, .inr ⟨before.length, latest.metadata, ?_, rfl, ?_, .inl ⟨rfl, ?_⟩⟩⟩
    · dsimp only
      rw [toNat_succ hlast, length_map, hplace, hlength]
    · rw [getElem?_map, hlatest]
      rfl
    · rw [hpending] at hfinish
      exact completed_of_gateFinish hfinish
    · rw [length_map, hlength]
  | rollback number parent =>
    obtain ⟨hsome, hparent, hlast⟩ := hselected
    obtain rfl : latest.generation = number := Option.mem_unique hnumber hsome
    obtain ⟨archive, hinspect, hnext⟩ := bind_eq_ok.mp hnext
    obtain ⟨handoff, hhandoff, hnext⟩ := bind_eq_ok.mp hnext
    obtain ⟨_, -, hnext⟩ := bind_eq_ok.mp hnext
    cases hnext
    obtain ⟨hmem, rfl⟩ := inspectGeneration_eq_ok hinspect
    obtain ⟨i, hi⟩ := mem_iff_getElem?.mp hmem
    have hearlier := h.number hi
    refine ⟨?_, .inr ⟨i, archive.metadata, ?_, rfl, rollbackHandoff_eq_ok hhandoff,
      .inr ⟨rfl, ?_⟩⟩⟩
    · dsimp only
      rw [toNat_succ hlast, length_map, hplace, hlength]
    · rw [getElem?_map, hi]
      rfl
    · rw [UInt64.lt_iff_toNat_lt] at hparent
      rw [length_map, hlength]
      omega

/-- What starts next has the number behind the current one. -/
theorem number_nextGeneration {archives} (hselected : Selected run.process selection)
    (hnext : nextGeneration archives capacity image selection = .ok next) :
    ∃ number, run.process.generationNumber = some number ∧ number ≠ lastGeneration ∧
      next.number = number + 1 := by
  cases selection with
  | successor number pending =>
    obtain ⟨hsome, -, hlast⟩ := hselected
    obtain ⟨_, -, hnext⟩ := bind_eq_ok.mp hnext
    cases hnext
    exact ⟨number, hsome, hlast, rfl⟩
  | rollback number parent =>
    obtain ⟨hsome, -, hlast⟩ := hselected
    obtain ⟨archive, -, hnext⟩ := bind_eq_ok.mp hnext
    obtain ⟨handoff, -, hnext⟩ := bind_eq_ok.mp hnext
    obtain ⟨_, -, hnext⟩ := bind_eq_ok.mp hnext
    cases hnext
    exact ⟨number, hsome, hlast, rfl⟩

end Starting

/-! ### One step -/

/-- What a step that leaves the archives alone has to keep. -/
theorem Sound.of_archives (h : Sound run) (harchives : run'.disk.archives = run.disk.archives)
    (hstarts : KeepsStarts run'.disk.harness.generations)
    (hcapacity : run'.disk.sourceCapacity.Valid ∧ run'.process.sourceCapacity.Valid)
    (hidentity : ∀ identity ∈ run'.process.identity, identity.Valid)
    (hstopped : run'.process.state = .stopped → run'.process.currentParent = none)
    (hgate : run'.process.state = .awaitingNextGeneration → AtGate run')
    (hunderWay : run'.process.state = .running ∨ run'.process.state = .paused → UnderWay run')
    (hbooting : ∀ selection, run'.process.booting = some selection →
      run'.process.state = .awaitingNextGeneration ∧ run'.process.transitioning = true ∧
        Selected run'.process selection) : Sound run' :=
  ⟨harchives ▸ h.history, harchives ▸ h.readable, harchives ▸ h.written, hstarts, hcapacity,
    hidentity, hstopped, hgate, hunderWay, hbooting⟩

theorem Sound.of_stopped (h : Sound run) (harchives : disk.archives = run.disk.archives)
    (hstarts : KeepsStarts disk.harness.generations)
    (hcapacity : disk.sourceCapacity.Valid ∧ process.sourceCapacity.Valid)
    (hidentity : ∀ identity ∈ process.identity, identity.Valid) (hstate : process.state = .stopped)
    (hparent : process.currentParent = none) (hbooting : process.booting = none) :
    Sound ⟨disk, process⟩ := by
  refine h.of_archives harchives hstarts hcapacity hidentity (fun _ => hparent) ?_ ?_ ?_
  · intro hawaiting
    rw [hstate] at hawaiting
    cases hawaiting
  · rintro (hrunning | hpaused)
    · rw [hstate] at hrunning
      cases hrunning
    · rw [hstate] at hpaused
      cases hpaused
  · intro selection hselection
    rw [hbooting] at hselection
    cases hselection

theorem Sound.of_started (h : Sound run) {number : UInt64} {transition}
    (harchives : disk.archives = run.disk.archives) (hstarts : KeepsStarts disk.harness.generations)
    (hcapacity : disk.sourceCapacity.Valid ∧ process.sourceCapacity.Valid)
    (hidentity : process.identity = run.process.identity) (hstate : process.state = .running)
    (hnumber : process.generationNumber = some number)
    (htransition : process.currentTransition = some transition)
    (hextends : (∀ outcome, Extends (disk.archives.map ArchivedGeneration.metadata)
      ⟨number, process.currentParent, transition, outcome⟩) ∨
        ∃ archive ∈ disk.archives, archive.generation = number)
    (hrecord : ∀ identity ∈ run.process.identity,
      startOf disk number = some (.file (startRecord number identity)))
    (hbooting : process.booting = none) : Sound ⟨disk, process⟩ := by
  refine h.of_archives harchives hstarts hcapacity (hidentity ▸ h.identity) ?_ ?_ ?_ ?_
  · intro hstopped
    rw [hstate] at hstopped
    cases hstopped
  · intro hawaiting
    rw [hstate] at hawaiting
    cases hawaiting
  · exact fun _ => ⟨number, transition, hnumber, htransition, hextends, hidentity ▸ hrecord⟩
  · intro selection hselection
    rw [hbooting] at hselection
    cases hselection

/-- Generation zero starts. -/
theorem Sound.started (h : Sound run) {disk} {image suffix : Bytes}
    (hstopped : run.process.state = .stopped)
    (hrecorded : recordHarnessGenerationStart run.disk run.process.identity suffix 0 = .ok disk) :
    Sound ⟨disk, run.process.startedInitial disk.bootstrap image⟩ := by
  have hstart := startRecorded_of_ok h.starts hrecorded
  obtain ⟨generations, rfl⟩ := hstart.same
  refine h.of_started rfl hstart.keeps h.capacity (bind_withLive _ fun _ => rfl) rfl rfl rfl ?_
    hstart.record ?_
  · dsimp only
    cases harchives : run.disk.archives with
    | nil => exact .inl fun outcome => ⟨rfl, .inl ⟨rfl, h.stopped hstopped, rfl⟩⟩
    | cons first archives =>
      -- a run with archives has one of generation zero
      refine .inr ⟨first, by simp, UInt64.toNat_inj.mp (h.number ?_)⟩
      simp [harchives]
  · refine Eq.trans ?_ (h.not_booting (by rw [hstopped]; decide))
    exact bind_withLive _ fun _ => rfl

theorem Sound.startedNext (h : Sound run) {selection next} {image : Bool} {feedback : Directory}
    (hawaiting : run.process.state = .awaitingNextGeneration)
    (hselected : Selected run.process selection)
    (hnext : nextGeneration run.disk.archives run.process.sourceCapacity image selection = .ok next)
    (hrecorded : recordHarnessGenerationStart run.disk run.process.identity suffix next.number =
      .ok disk) (hidentity : process.identity = run.process.identity)
    (hcapacity : process.sourceCapacity = run.process.sourceCapacity)
    (hstate : process.state = .running) (hnumber : process.generationNumber = some next.number)
    (hparent : process.currentParent = some next.parent)
    (htransition : process.currentTransition = some next.transition)
    (hbooting : process.booting = none) : Sound ⟨{ disk with feedback := feedback }, process⟩ := by
  have hstart := startRecorded_of_ok h.starts hrecorded
  obtain ⟨generations, rfl⟩ := hstart.same
  refine h.of_started rfl hstart.keeps ⟨h.capacity.1, hcapacity ▸ h.capacity.2⟩ hidentity hstate
    hnumber htransition (.inl fun outcome => ?_) hstart.record hbooting
  rw [hparent]
  exact extends_nextGeneration h (h.gate hawaiting) hselected hnext outcome

/-- A generation is archived, and the object is at the gate. -/
theorem Sound.ended (h : Sound run) (hends : Ends run operation disk archive)
    (hidentity : process.identity = run.process.identity)
    (hcapacity : process.sourceCapacity = run.process.sourceCapacity)
    (hbooting : process.booting = run.process.booting)
    (hstate : process.state = .awaitingNextGeneration)
    (hnumber : process.generationNumber = run.process.generationNumber)
    (hfinish : gateFinish archive = .ok process.pendingFinish)
    (hhandoff : process.previousHandoff =
      process.pendingFinish.map PendingGenerationFinish.handoffMessage) :
    Sound ⟨{ disk with archives := disk.archives ++ [archive] }, process⟩ := by
  obtain ⟨suffix, hrecorded⟩ := hends.recorded
  have hstart := startRecorded_of_ok h.starts hrecorded
  have hextends := hends.extends h
  have hreadable := hends.readable h
  obtain ⟨generations, rfl⟩ := hstart.same
  refine ⟨?_, ?_, ?_, hstart.keeps, ⟨h.capacity.1, hcapacity ▸ h.capacity.2⟩,
    hidentity ▸ h.identity, ?_, ?_, ?_, ?_⟩
  · rw [map_append]
    exact h.history.snoc hextends
  · intro other hother
    rcases mem_append.mp hother with hold | hnew
    · exact h.readable other hold
    · obtain rfl := mem_singleton.mp hnew
      exact hreadable
  · intro other hother
    rcases mem_append.mp hother with hold | hnew
    · exact h.written other hold
    · obtain rfl := mem_singleton.mp hnew
      exact hends.written
  · intro hstopped
    rw [hstate] at hstopped
    cases hstopped
  · exact fun _ => ⟨run.disk.archives, archive, rfl, hnumber.trans hends.number, hfinish, hhandoff⟩
  · intro hactive
    exact absurd hstate (ne_awaiting hactive)
  · intro selection hselection
    rw [hbooting, h.not_booting (ne_awaiting hends.active)] at hselection
    cases hselection

/-- The gate that is reopened shows the latest archive. -/
theorem Sound.reopened (h : Sound run) {latest pending} {harness : HarnessStore}
    (hstopped : run.process.state = .stopped) (hread : readGate run.disk = .ok latest)
    (hfinish : gateFinish latest = .ok pending)
    (hstarts : harness.generations = run.disk.harness.generations) :
    Sound ⟨{ run.disk with harness := harness }, run.process.reopened latest pending⟩ := by
  obtain ⟨archives, hload, hread⟩ := bind_eq_ok.mp hread
  obtain rfl := Except.ok.inj ((loadHistory_eq_ok h).symm.trans hload)
  split at hread
  · cases hread
  rename_i last hlast
  obtain ⟨_, -, hread⟩ := bind_eq_ok.mp hread
  obtain rfl := Except.ok.inj hread
  obtain ⟨before, hbefore⟩ := getLast?_eq_some_iff.mp hlast
  refine h.of_archives rfl ?_ h.capacity h.identity ?_ ?_ ?_ ?_
  · dsimp only
    rw [hstarts]
    exact h.starts
  · intro hstate
    cases hstate
  · exact fun _ => ⟨before, last, hbefore, rfl, hfinish, rfl⟩
  · rintro (hstate | hstate) <;> cases hstate
  · intro selection hselection
    have hnone := h.not_booting (by rw [hstopped]; decide)
    cases hnone.symm.trans hselection

theorem generations_recordIdentity {harness harness' transition}
    (h : recordIdentity harness suffix transition = .ok harness') :
    harness'.generations = harness.generations := by
  cases transition with
  | none => rw [← Except.ok.inj h]
  | some transition =>
    obtain ⟨calls, -, h⟩ := bind_eq_ok.mp (mapError_eq_ok.mp h)
    rw [← Except.ok.inj h]

/-- A step that changes neither the archives nor what the invariant says about the object. -/
theorem Sound.of_same (h : Sound run)
    (hcapacity : process.sourceCapacity = run.process.sourceCapacity)
    (hidentity : process.identity = run.process.identity)
    (hparent : process.currentParent = run.process.currentParent)
    (hnumber : process.generationNumber = run.process.generationNumber)
    (htransition : process.currentTransition = run.process.currentTransition)
    (hstate : process.state = run.process.state ∨
      (run.process.state = .running ∨ run.process.state = .paused) ∧
        (process.state = .running ∨ process.state = .paused))
    (hgate : process.pendingFinish = run.process.pendingFinish ∧
      process.previousHandoff = run.process.previousHandoff)
    (hbooting : ∀ selection, process.booting = some selection →
      process.state = .awaitingNextGeneration ∧ process.transitioning = true ∧
        Selected process selection) : Sound ⟨run.disk, process⟩ := by
  refine h.of_archives rfl h.starts ⟨h.capacity.1, hcapacity ▸ h.capacity.2⟩
    (hidentity ▸ h.identity) ?_ ?_ ?_ hbooting
  · intro hstopped
    rcases hstate with hsame | ⟨-, hactive⟩
    · dsimp only
      rw [hparent]
      exact h.stopped (hsame ▸ hstopped)
    · rcases hactive with hactive | hactive <;> rw [hactive] at hstopped <;> cases hstopped
  · intro hawaiting
    rcases hstate with hsame | ⟨-, hactive⟩
    · obtain ⟨before, latest, harchives, hlatest, hfinish, hhandoff⟩ :=
        h.gate (hsame ▸ hawaiting)
      exact ⟨before, latest, harchives, hnumber ▸ hlatest, hgate.1 ▸ hfinish,
        by dsimp only; rw [hgate.1, hgate.2]; exact hhandoff⟩
    · exact absurd hawaiting (ne_awaiting hactive)
  · intro hactive
    have hbefore : run.process.state = .running ∨ run.process.state = .paused := by
      rcases hstate with hsame | ⟨hactive, -⟩
      · exact hsame ▸ hactive
      · exact hactive
    obtain ⟨number, transition, hsome, hcurrent, hextends, hrecord⟩ := h.underWay hbefore
    exact ⟨number, transition, hnumber ▸ hsome, htransition ▸ hcurrent, hparent ▸ hextends,
      hidentity ▸ hrecord⟩

/-- **Every operation keeps the invariant.** -/
theorem Sound.step (h : Sound run) (heffect : Effect run operation run') : Sound run' := by
  cases heffect with
  | refused => exact h
  | opened hvalid =>
    refine h.of_stopped rfl h.starts ⟨h.capacity.1, h.capacity.1⟩ ?_ rfl rfl ?_
    · intro identity hidentity
      rename_i live
      refine hvalid identity ?_
      cases live with
      | none => cases hidentity
      | some live => exact hidentity
    · rename_i live
      cases live <;> rfl
  | closed =>
    have hidentity : (close run.process).identity = run.process.identity :=
      bind_withLive _ fun _ => rfl
    exact h.of_stopped rfl h.starts h.capacity (hidentity ▸ h.identity) rfl rfl
      (bind_cleared _ fun _ => rfl)
  | started image hstopped hunnumbered hrecorded => exact h.started hstopped hrecorded
  | atGate hstopped hread hprepared hfinish hrecorded =>
    exact h.reopened hstopped hread hfinish (generations_recordIdentity hrecorded)
  | selected _ hlive hfree hselect =>
    rename_i selection
    obtain ⟨hselected, -, -, hawaiting⟩ := selected_of_select hselect
    refine h.of_same rfl (bind_withLive _ fun _ => rfl) rfl rfl rfl (.inl rfl) ⟨rfl, rfl⟩ ?_
    intro other hother
    obtain ⟨live, hsome⟩ := Option.isSome_iff_exists.mp hlive
    have hbooting : (run.process.selected selection).booting = some selection := by
      simp [CodexOSRun.booting, CodexOSRun.selected, CodexOSRun.withLive, hsome]
    obtain rfl : selection = other := Option.mem_unique hbooting hother
    exact ⟨hawaiting, rfl, by cases selection <;> exact hselected⟩
  | dropped hbooting hdisk =>
    have hclear : Sound ⟨run.disk, run.process.clearLiveTransition⟩ := by
      refine h.of_same rfl (bind_withLive _ fun _ => rfl) rfl rfl rfl (.inl rfl) ⟨rfl, rfl⟩ ?_
      intro other hother
      cases (bind_cleared _ fun _ => rfl).symm.trans hother
    rcases hdisk with rfl | ⟨next, hnext, hrecorded⟩
    · exact hclear
    obtain ⟨hawaiting, -, -⟩ := h.booting _ hbooting
    have hstart := startRecorded_of_ok h.starts hrecorded
    obtain ⟨generations, rfl⟩ := hstart.same
    refine hclear.of_archives rfl hstart.keeps hclear.capacity hclear.identity hclear.stopped
      hclear.gate ?_ hclear.booting
    exact fun hactive => absurd hawaiting (ne_awaiting hactive)
  | booted image hbooting hnext hrecorded hattach =>
    obtain ⟨hawaiting, -, hselected⟩ := h.booting _ hbooting
    exact h.startedNext hawaiting hselected hnext hrecorded (bind_withLive _ fun _ => rfl) rfl
      rfl rfl rfl rfl (bind_cleared _ fun _ => rfl)
  | startedOffline _ hoffline hselect hnext hattach =>
    obtain ⟨hselected, -, -, hawaiting⟩ := selected_of_select hselect
    have hidentity : run.process.identity = none := by
      rw [CodexOSRun.identity, hoffline]
      rfl
    rename_i next feedback attached
    have hrecorded : recordHarnessGenerationStart run.disk run.process.identity [] next.number =
        .ok run.disk := by rw [hidentity]; rfl
    refine h.startedNext hawaiting hselected hnext hrecorded rfl rfl rfl rfl rfl rfl ?_
    exact congrArg (Option.bind · LiveRun.operation) hoffline
  | unarchived _ hactive hnumber hrecorded hprocess =>
    rename_i number
    have hstart := startRecorded_of_ok h.starts hrecorded
    obtain ⟨generations, rfl⟩ := hstart.same
    have hnone := h.not_booting (ne_awaiting hactive)
    rcases hprocess with rfl | rfl
    · refine h.of_archives rfl hstart.keeps h.capacity h.identity h.stopped
        (fun hawaiting => absurd hawaiting (ne_awaiting hactive)) (fun _ => ?_) h.booting
      obtain ⟨other, transition, hsome, htransition, hextends, hrecord⟩ := h.underWay hactive
      obtain rfl : number = other := Option.mem_unique hnumber hsome
      exact ⟨number, transition, hnumber, htransition, hextends, hstart.record⟩
    · have hidentity : run.process.failed.identity = run.process.identity :=
        bind_withLive _ fun _ => rfl
      refine h.of_stopped rfl hstart.keeps h.capacity (hidentity ▸ h.identity) rfl rfl
        (Eq.trans ?_ hnone)
      exact bind_withLive _ fun _ => rfl
  | ended _ hends hprocess =>
    rename_i archive process
    rcases hprocess with ⟨houtcome, handoff, snapshot, hhandoff, hsnapshot, rfl⟩ |
      ⟨houtcome, rfl | rfl⟩
    · refine h.ended hends (bind_withLive _ fun _ => rfl) rfl (bind_withLive _ fun _ => rfl) rfl rfl
        ?_ rfl
      have hfinished : Finished archive := by
        rcases hends.written with hfinished | ⟨reason, haborted⟩
        · exact hfinished
        · rw [haborted.outcome] at houtcome
          cases houtcome
      obtain ⟨message, content, hmessage, hcontent, hfinish⟩ := gateFinish_finished hfinished
      obtain rfl : handoff = message := Option.mem_unique hhandoff hmessage
      obtain rfl : snapshot = content := Option.mem_unique hsnapshot hcontent
      exact hfinish
    · exact h.ended hends (bind_withLive _ fun _ => rfl) rfl (bind_withLive _ fun _ => rfl) rfl
        rfl (gateFinish_aborted houtcome) rfl
    · exact h.ended hends rfl rfl rfl rfl rfl (gateFinish_aborted houtcome) rfl
  | unreadable _ hends hunread => exact absurd (hends.readable h) hunread
  | halted _ hactive hstate =>
    refine h.of_same rfl rfl rfl rfl rfl (.inr ⟨hactive, hstate⟩) ⟨rfl, rfl⟩ ?_
    intro selection hselection
    have hselection : run.process.booting = some selection := hselection
    rw [h.not_booting (ne_awaiting hactive)] at hselection
    cases hselection
  | leased generation hfrozen | released generation =>
    exact h.of_same rfl rfl rfl rfl rfl (.inl rfl) ⟨rfl, rfl⟩ fun selection hselection =>
      ⟨(h.booting selection hselection).1, (h.booting selection hselection).2.1,
        by have := (h.booting selection hselection).2.2; cases selection <;> exact this⟩
  | resized hvalid hawaiting hfree =>
    rename_i capacity
    have hbytes : Budget.Valid capacity.bytes := by
      rcases hvalid with hdefault | hexpanded
      · rw [hdefault]; decide
      · rw [hexpanded]; decide
    refine h.of_archives rfl h.starts ⟨hbytes, hbytes⟩ h.identity h.stopped h.gate h.underWay
      fun selection hselection => ?_
    have hbooting := h.booting selection hselection
    exact ⟨hbooting.1, hbooting.2.1, by cases selection <;> exact hbooting.2.2⟩

/-! ### Runs -/

/-- A run directory without generations. -/
def newRunDirectory (identity : Option HarnessIdentity) (capacity : Budget)
    (bootstrap : Option Bytes) : RunDirectory :=
  ⟨[], [], newRun identity, capacity, bootstrap⟩

/-- A run that nobody has opened yet. -/
def newExperiment (identity : Option HarnessIdentity) (capacity : Budget)
    (bootstrap : Option Bytes) : Run :=
  ⟨newRunDirectory identity capacity bootstrap,
    newCodexOSRun (newRunDirectory identity capacity bootstrap) none⟩

theorem sound_newExperiment {identity : Option HarnessIdentity} {capacity : Budget}
    (hcapacity : capacity.Valid) (bootstrap : Option Bytes) :
    Sound (newExperiment identity capacity bootstrap) := by
  refine ⟨history_nil, by simp [newExperiment, newRunDirectory], by
    simp [newExperiment, newRunDirectory], keepsStarts_nil, ⟨hcapacity, hcapacity⟩, ?_,
    fun _ => rfl, ?_, ?_, ?_⟩
  · intro identity hidentity
    cases hidentity
  · intro hstate
    cases hstate
  · rintro (hstate | hstate) <;> cases hstate
  · intro selection hselection
    cases hselection

/-- **The invariant holds in every run.** -/
theorem sound_performAll (h : Sound run) (operations : List Operation) :
    Sound (performAll run operations) :=
  @performAll_induction (fun _ _ => True) Sound run h
    (fun _ _ h _ => h.step (perform_effect _ _)) operations fun _ _ _ _ => trivial

end Carcer.Experiment
