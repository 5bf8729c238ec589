import Carcer.Experiment.RuntimeLease

/-!
# The start records of a run

Which start records a run has on disk. They are written once and found by the number alone, while a
number can be tried several times before it is archived, in between by another harness. As long as a
gate is reopened by the harness that tried the next number last, the record is that of the harness
that runs it; a harness that finds the record of another one there is refused when it starts the
generation, although its gate was reopened.

## Main definitions

* `Agrees`: a start record does not contradict an identity
* `StartsFresh`: the condition on a step
* `StartsSound`: the start records of a run

## Main results

* `startRecords_agree`: under the condition, no start is refused, and the archived generations have
  the records of the identities that ran them
* `startRecord_refused`: the start that is refused otherwise
-/

namespace Carcer.Experiment

open Carcer.Wire Carcer.Disk Carcer.Guest Carcer.Provenance List

/-- A start record is not there, or is that of the identity. -/
def Agrees (entry : Option Entry) (harness : Option HarnessIdentity) (generation : UInt64) : Prop :=
  entry = none ∨ ∃ identity, harness = some identity ∧
    entry = some (.file (startRecord generation identity))

/-- **The condition on a step**: a gate is reopened when the start record of the next generation
agrees with the harness; generation zero is started in a run without archives, and without an
identity only when it has no start record. -/
def StartsFresh (run : Run) : Operation → Prop
  | .start _ => run.disk.archives = [] ∧
      (run.process.identity = none → startOf run.disk 0 = none)
  | .reopenAtGate _ => ∀ latest, run.disk.archives.getLast? = some latest →
      latest.generation ≠ lastGeneration →
        Agrees (startOf run.disk (latest.generation + 1)) run.process.identity
          (latest.generation + 1)
  | _ => True

/-- The record of the identity that runs a generation, where there is one. -/
def recordOf (harness : Option HarnessIdentity) (generation : UInt64) : Option Entry :=
  harness.map fun identity => .file (startRecord generation identity)

/-- **The start records of a run.** -/
structure StartsSound (run : Run) : Prop where
  archived : ∀ archive ∈ run.disk.archives,
    startOf run.disk archive.generation = recordOf archive.harnessIdentity archive.generation
  later : ∀ generation, run.disk.archives.length < generation.toNat →
    startOf run.disk generation = none
  gate : run.process.state = .awaitingNextGeneration → ∀ number,
    run.process.generationNumber = some number → number ≠ lastGeneration →
      Agrees (startOf run.disk (number + 1)) run.process.identity (number + 1)
  underWay : run.process.state = .running ∨ run.process.state = .paused → ∀ number,
    run.process.generationNumber = some number → number.toNat = run.disk.archives.length ∧
      startOf run.disk number = recordOf run.process.identity number

variable {run run' : Run} {operation : Operation}

/-- A step that leaves the archives and the records, and no generation at the gate or under way. -/
theorem StartsSound.of_stopped (h : StartsSound run) {process : CodexOSRun}
    (hstate : process.state = .stopped) : StartsSound ⟨run.disk, process⟩ := by
  refine ⟨h.archived, h.later, fun hawaiting => ?_, fun hactive => ?_⟩
  · exact absurd hawaiting (ne_awaiting_of_stopped hstate)
  · rw [hstate] at hactive
    rcases hactive with hactive | hactive <;> cases hactive

theorem StartsSound.of_gate (h : StartsSound run)
    (hharness : run'.disk.harness.generations = run.disk.harness.generations)
    (harchives : run'.disk.archives = run.disk.archives)
    (hidentity : run'.process.identity = run.process.identity)
    (hnumber : run'.process.generationNumber = run.process.generationNumber)
    (hawaiting : run.process.state = .awaitingNextGeneration)
    (hstate : run'.process.state = .awaitingNextGeneration) : StartsSound run' := by
  have hstarts : ∀ generation, startOf run'.disk generation = startOf run.disk generation :=
    fun generation => by rw [startOf, hharness, startOf]
  refine ⟨fun archive harchive => ?_, fun generation hlt => ?_, fun _ number hsome hlast => ?_,
    fun hactive => absurd hstate (ne_awaiting hactive)⟩
  · rw [hstarts]
    exact h.archived archive (harchives ▸ harchive)
  · rw [hstarts]
    exact h.later generation (harchives ▸ hlt)
  · rw [hstarts, hidentity]
    exact h.gate hawaiting number (hnumber ▸ hsome) hlast

theorem agrees_recordOf {disk disk' harness} {generation : UInt64}
    (hstart : StartRecorded disk harness generation disk')
    (hagrees : Agrees (startOf disk generation) harness generation) :
    startOf disk' generation = recordOf harness generation := by
  cases harness with
  | none =>
    rw [hstart.unchanged rfl]
    rcases hagrees with hnone | ⟨identity, hidentity, -⟩
    · exact hnone
    · cases hidentity
  | some identity => exact hstart.record identity rfl

theorem ne_next (hsound : Sound run) {number : UInt64}
    (hnumber : number.toNat = run.disk.archives.length) {archive}
    (harchive : archive ∈ run.disk.archives) : archive.generation ≠ number := by
  intro heq
  have hlt := hsound.toNat_lt harchive
  rw [heq] at hlt
  omega

/-- A start of the next number is recorded. -/
theorem StartsSound.recorded (h : StartsSound run) (hsound : Sound run) {disk}
    {number : UInt64} (hnumber : number.toNat = run.disk.archives.length)
    (hstart : StartRecorded run.disk run.process.identity number disk) :
    (∀ archive ∈ disk.archives,
      startOf disk archive.generation = recordOf archive.harnessIdentity archive.generation) ∧
    ∀ generation, disk.archives.length < generation.toNat → startOf disk generation = none := by
  have harchives : disk.archives = run.disk.archives := by
    obtain ⟨generations, rfl⟩ := hstart.same
    rfl
  rw [harchives]
  refine ⟨fun archive harchive => ?_, fun generation hlt => ?_⟩
  · rw [hstart.others _ (ne_next hsound hnumber harchive)]
    exact h.archived archive harchive
  · have hne : generation ≠ number := by
      rintro rfl
      omega
    rw [hstart.others _ hne]
    exact h.later generation hlt

/-- A generation starts. -/
theorem StartsSound.started (h : StartsSound run) (hsound : Sound run) {disk} {process : CodexOSRun}
    {number : UInt64} {feedback : Directory} (hlength : number.toNat = run.disk.archives.length)
    (hstart : StartRecorded run.disk run.process.identity number disk)
    (hagrees : Agrees (startOf run.disk number) run.process.identity number)
    (hidentity : process.identity = run.process.identity) (hstate : process.state = .running)
    (hnumber : process.generationNumber = some number) :
    StartsSound ⟨{ disk with feedback := feedback }, process⟩ := by
  have harchives : disk.archives = run.disk.archives := by
    obtain ⟨generations, rfl⟩ := hstart.same
    rfl
  obtain ⟨harchived, hlater⟩ := h.recorded hsound hlength hstart
  refine ⟨harchived, hlater, fun hawaiting => ?_, fun _ other hother => ?_⟩
  · rw [hstate] at hawaiting
    cases hawaiting
  · obtain rfl : number = other := Option.mem_unique hnumber hother
    refine ⟨hlength.trans (congrArg List.length harchives).symm, ?_⟩
    have hrecord := agrees_recordOf hstart hagrees
    rw [← hidentity] at hrecord
    exact hrecord

theorem StartsSound.startedNext (h : StartsSound run) (hsound : Sound run) {selection next}
    {image : Bool} {capacity disk} {suffix : Bytes} {process : CodexOSRun} {feedback : Directory}
    (hawaiting : run.process.state = .awaitingNextGeneration)
    (hselected : Selected run.process selection)
    (hnext : nextGeneration run.disk.archives capacity image selection = .ok next)
    (hrecorded : recordHarnessGenerationStart run.disk run.process.identity suffix next.number =
      .ok disk) (hidentity : process.identity = run.process.identity)
    (hstate : process.state = .running) (hnumber : process.generationNumber = some next.number) :
    StartsSound ⟨{ disk with feedback := feedback }, process⟩ := by
  have hlength := (extends_nextGeneration hsound (hsound.gate hawaiting) hselected hnext
    .completed).number
  rw [length_map] at hlength
  obtain ⟨number, hsome, hlast, hsucc⟩ := number_nextGeneration hselected hnext
  have hagrees := h.gate hawaiting number hsome hlast
  rw [← hsucc] at hagrees
  exact h.started hsound hlength (startRecorded_of_ok hsound.starts hrecorded) hagrees hidentity
    hstate hnumber

/-- A generation is archived. -/
theorem StartsSound.ended (h : StartsSound run) (hsound : Sound run) {disk archive}
    {process : CodexOSRun} (hends : Ends run operation disk archive)
    (hstate : process.state = .awaitingNextGeneration)
    (hnumber : process.generationNumber = run.process.generationNumber) :
    StartsSound ⟨{ disk with archives := disk.archives ++ [archive] }, process⟩ := by
  obtain ⟨suffix, hrecorded⟩ := hends.recorded
  have hstart := startRecorded_of_ok hsound.starts hrecorded
  obtain ⟨hlength, hunder⟩ := h.underWay hends.active archive.generation hends.number
  obtain ⟨harchived, hlater⟩ := h.recorded hsound hlength hstart
  have harchives : disk.archives.length = run.disk.archives.length := by rw [hends.archives_eq]
  have hnew : startOf disk archive.generation =
      recordOf archive.harnessIdentity archive.generation := by
    rw [hends.identity]
    cases hidentity : run.process.identity with
    | none =>
      rw [hstart.unchanged hidentity, hunder, hidentity]
    | some identity => exact hstart.record identity hidentity
  refine ⟨fun other hother => ?_, fun generation hlt => hlater generation ?_,
    fun _ number hsome hlast => .inl (hlater _ ?_),
    fun hactive => absurd hstate (ne_awaiting hactive)⟩
  · rcases mem_append.mp hother with hold | hnewer
    · exact harchived other hold
    · obtain rfl := mem_singleton.mp hnewer
      exact hnew
  · have hlt : (disk.archives ++ [archive]).length < generation.toNat := hlt
    rw [length_append, length_singleton] at hlt
    omega
  · have hsame : some number = some archive.generation :=
      hsome.symm.trans (hnumber.trans hends.number)
    cases hsame
    rw [toNat_succ hlast, harchives, hlength]
    exact Nat.lt_succ_self _

/-- **A step under the condition keeps the start records in order.** -/
theorem StartsSound.step (h : StartsSound run) (hsound : Sound run)
    (hfresh : StartsFresh run operation) (heffect : Effect run operation run') :
    StartsSound run' := by
  cases heffect with
  | refused => exact h
  | opened | closed => exact h.of_stopped rfl
  | started image hstopped hunnumbered hrecorded =>
    rename_i fate disk
    obtain ⟨hnil, hnone⟩ := hfresh
    have hstart := startRecorded_of_ok hsound.starts hrecorded
    have hagrees : Agrees (startOf run.disk 0) run.process.identity 0 := by
      cases hidentity : run.process.identity with
      | none => exact .inl (hnone hidentity)
      | some identity =>
        rcases hstart.before identity hidentity with hnone | ⟨hsame, -⟩
        · exact .inl hnone
        · exact .inr ⟨identity, rfl, hsame⟩
    have hlength : (0 : UInt64).toNat = run.disk.archives.length := by
      rw [hnil]
      rfl
    exact @StartsSound.started run h hsound disk _ 0 disk.feedback hlength hstart hagrees
      (bind_withLive _ fun _ => rfl) rfl rfl
  | atGate hstopped hread hprepared hfinish hrecorded =>
    rename_i latest transition pending harness
    have hstarts : ∀ generation, startOf { run.disk with harness := harness } generation =
        startOf run.disk generation := fun generation => by
      rw [startOf, generations_recordIdentity hrecorded, startOf]
    have hlatest : run.disk.archives.getLast? = some latest := by
      obtain ⟨archives, hload, hread⟩ := bind_eq_ok.mp hread
      obtain rfl := Except.ok.inj ((loadHistory_eq_ok hsound).symm.trans hload)
      split at hread
      · cases hread
      rename_i last hlast
      obtain ⟨_, -, hread⟩ := bind_eq_ok.mp hread
      cases hread
      exact hlast
    refine ⟨fun archive harchive => ?_, fun generation hlt => ?_, ?_, ?_⟩
    · rw [hstarts]
      exact h.archived archive harchive
    · rw [hstarts]
      exact h.later generation hlt
    · rintro - _ ⟨⟩ hlast
      rw [hstarts]
      exact hfresh latest hlatest hlast
    · rintro (hstate | hstate) <;> cases hstate
  | selected _ _ _ hselect =>
    have hawaiting := (selected_of_select hselect).2.2.2
    exact h.of_gate rfl rfl (bind_withLive _ fun _ => rfl) rfl hawaiting hawaiting
  | dropped hbooting hdisk =>
    obtain ⟨hawaiting, -, hselected⟩ := hsound.booting _ hbooting
    rcases hdisk with rfl | ⟨next, hnext, hrecorded⟩
    · exact h.of_gate rfl rfl (bind_withLive _ fun _ => rfl) rfl hawaiting hawaiting
    have hstart := startRecorded_of_ok hsound.starts hrecorded
    have hlength := (extends_nextGeneration hsound (hsound.gate hawaiting) hselected hnext
      .completed).number
    rw [length_map] at hlength
    obtain ⟨harchived, hlater⟩ := h.recorded hsound hlength hstart
    refine ⟨harchived, hlater, fun _ number hsome hlast => ?_,
      fun hactive => absurd hawaiting (ne_awaiting hactive)⟩
    obtain ⟨current, hcurrent, -, hsucc⟩ := number_nextGeneration hselected hnext
    obtain rfl : current = number := Option.mem_unique hcurrent hsome
    have hsame : run.process.clearLiveTransition.identity = run.process.identity :=
      bind_withLive _ fun _ => rfl
    rw [hsame, ← hsucc]
    cases hidentity : run.process.identity with
    | none =>
      rw [hstart.unchanged hidentity, hsucc, ← hidentity]
      exact h.gate hawaiting current hcurrent hlast
    | some identity => exact .inr ⟨identity, rfl, hstart.record identity hidentity⟩
  | booted image hbooting hnext hrecorded hattach =>
    obtain ⟨hawaiting, -, hselected⟩ := hsound.booting _ hbooting
    exact h.startedNext hsound hawaiting hselected hnext hrecorded (bind_withLive _ fun _ => rfl)
      rfl rfl
  | startedOffline _ hoffline hselect hnext hattach =>
    rename_i next feedback attached
    obtain ⟨hselected, -, -, hawaiting⟩ := selected_of_select hselect
    have hidentity : run.process.identity = none := by
      rw [CodexOSRun.identity, hoffline]
      rfl
    have hrecorded : recordHarnessGenerationStart run.disk run.process.identity [] next.number =
        .ok run.disk := by rw [hidentity]; rfl
    exact h.startedNext hsound hawaiting hselected hnext hrecorded rfl rfl rfl
  | unarchived _ hactive hnumber hrecorded hprocess =>
    rename_i number
    have hstart := startRecorded_of_ok hsound.starts hrecorded
    obtain ⟨hlength, hunder⟩ := h.underWay hactive number hnumber
    obtain ⟨harchived, hlater⟩ := h.recorded hsound hlength hstart
    have harchives := recordHarnessGenerationStart_archives hrecorded
    obtain ⟨harness, hharness⟩ := harchives
    rcases hprocess with rfl | rfl
    · refine ⟨harchived, hlater, fun hawaiting => absurd hawaiting (ne_awaiting hactive),
        fun _ other hother => ?_⟩
      obtain rfl : number = other := Option.mem_unique hnumber hother
      refine ⟨by rw [hharness]; exact hlength, ?_⟩
      cases hidentity : run.process.identity with
      | none =>
        rw [hstart.unchanged hidentity, hunder, hidentity]
      | some identity => exact hstart.record identity hidentity
    · refine ⟨harchived, hlater, fun hstate => ?_, fun hstate => ?_⟩
      · cases hstate
      · rcases hstate with hstate | hstate <;> cases hstate
  | ended _ hends hprocess =>
    rcases hprocess with ⟨-, handoff, snapshot, -, -, rfl⟩ | ⟨-, rfl | rfl⟩
    all_goals exact h.ended hsound hends rfl rfl
  | unreadable _ hends hunread => exact absurd (hends.readable hsound) hunread
  | halted _ hactive hstate =>
    exact ⟨h.archived, h.later, fun hawaiting => absurd hawaiting (ne_awaiting hstate),
      fun _ => h.underWay hactive⟩
  | leased _ hfrozen => exact h.of_gate rfl rfl rfl rfl hfrozen.2.1 hfrozen.2.1
  | released => exact { h with }
  | resized _ hawaiting => exact h.of_gate rfl rfl rfl rfl hawaiting hawaiting

theorem startsSound_newExperiment (identity : Option HarnessIdentity) (capacity : Budget)
    (bootstrap : Option Bytes) : StartsSound (newExperiment identity capacity bootstrap) := by
  refine ⟨?_, fun _ _ => rfl, fun hstate => ?_, fun hstate => ?_⟩
  · intro archive harchive
    cases harchive
  · cases hstate
  · rcases hstate with hstate | hstate <;> cases hstate

/-- **Start records and identities.** In every run whose steps meet the condition: the start record
of an archived generation is that of the identity that ran it; and at the gate of a harness, the
start of the next generation is recorded, if the record that may be there can be read. -/
theorem startRecords_agree (identity : Option HarnessIdentity) (capacity : Budget)
    (bootstrap : Option Bytes) (hcapacity : capacity.Valid) (operations : List Operation)
    (hfresh : Throughout StartsFresh (newExperiment identity capacity bootstrap) operations) :
    let run := performAll (newExperiment identity capacity bootstrap) operations
    (∀ archive ∈ run.disk.archives, startOf run.disk archive.generation =
      archive.harnessIdentity.map fun identity =>
        .file (startRecord archive.generation identity)) ∧
    ∀ number harness, run.process.state = .awaitingNextGeneration →
      run.process.generationNumber = some number → number ≠ lastGeneration →
      run.process.identity = some harness →
      (∀ content, startOf run.disk (number + 1) = some (.file content) →
        content.length ≤ harnessIdentityLimit) →
      ∀ suffix, ∃ disk,
        recordHarnessGenerationStart run.disk (some harness) suffix (number + 1) = .ok disk := by
  intro run
  have hboth : Sound run ∧ StartsSound run := @performAll_induction StartsFresh
    (fun run => Sound run ∧ StartsSound run) _
    ⟨sound_newExperiment hcapacity bootstrap, startsSound_newExperiment identity capacity bootstrap⟩
    (fun _ _ ⟨hsound, h⟩ hfresh => ⟨hsound.step (perform_effect _ _),
      h.step hsound hfresh (perform_effect _ _)⟩) operations hfresh
  obtain ⟨hsound, h⟩ := hboth
  refine ⟨h.archived, fun number harness hawaiting hnumber hlast hharness hreadable suffix => ?_⟩
  have hvalid := hsound.identity harness hharness
  have hrecord : startOf run.disk (number + 1) = none ∨ startOf run.disk (number + 1) =
      some (.file (startRecord (number + 1) harness)) ∧
        (startRecord (number + 1) harness).length ≤ harnessIdentityLimit := by
    rcases h.gate hawaiting number hnumber hlast with hnone | ⟨other, hother, hsame⟩
    · exact .inl hnone
    · obtain rfl : harness = other := Option.mem_unique hharness hother
      exact .inr ⟨hsame, hreadable _ hsame⟩
  obtain ⟨store, hstore⟩ := exists_recordGenerationStart hvalid suffix hrecord
  exact ⟨{ run.disk with harness := store },
    bind_eq_ok.mpr ⟨store, mapError_eq_ok.mpr hstore, rfl⟩⟩

/-- Two harnesses. -/
def firstHarness : HarnessIdentity := identityWith (ascii "go1.24")

/-- The harness that replaces the first one. -/
def secondHarness : HarnessIdentity := identityWith (ascii "go1.25")

/-- The first generation is finished, and the run is opened by the second harness. -/
def reopenedRun : List Operation :=
  firstGeneration (some firstHarness) ++ [.reopen (some (some secondHarness))]

def reopenedGate : List Operation := reopenedRun ++ [.reopenAtGate fortunate]

/-- The harness that has reopened the gate can start the next generation. -/
theorem startRecords_agree_first :
    let run := performAll (newExperiment (some firstHarness) 0 none) reopenedGate
    run.process.generationNumber = some 0 ∧
      ∃ disk, recordHarnessGenerationStart run.disk (some secondHarness) [] (0 + 1) = .ok disk := by
  have hstart : StartsFresh (performAll (newExperiment (some firstHarness) 0 none)
      [.reopen (some (some firstHarness))]) (.start fortunate) :=
    ⟨by decide +kernel, fun hnone => absurd hnone (by decide +kernel)⟩
  have hreopen : StartsFresh (performAll (newExperiment (some firstHarness) 0 none) reopenedRun)
      (.reopenAtGate fortunate) := by
    intro latest hlatest _
    have hnone : ∀ latest ∈ (performAll (newExperiment (some firstHarness) 0 none)
        reopenedRun).disk.archives.getLast?,
        startOf (performAll (newExperiment (some firstHarness) 0 none) reopenedRun).disk
          (latest.generation + 1) = none := by decide +kernel
    exact .inl (hnone latest hlatest)
  have hstarted : Throughout StartsFresh (newExperiment (some firstHarness) 0 none)
      [.reopen (some (some firstHarness)), .start fortunate] :=
    ((throughout_nil _ _).concat trivial).concat hstart
  have hfinished : Throughout StartsFresh (newExperiment (some firstHarness) 0 none) reopenedRun :=
    (hstarted.concat (show StartsFresh _ finishing from trivial)).concat trivial
  have hfresh : Throughout StartsFresh (newExperiment (some firstHarness) 0 none) reopenedGate :=
    hfinished.concat hreopen
  have hgate :
      let run := performAll (newExperiment (some firstHarness) 0 none) reopenedGate
      run.process.state = .awaitingNextGeneration ∧ run.process.generationNumber = some 0 ∧
        run.process.identity = some secondHarness ∧ startOf run.disk (0 + 1) = none := by
    decide +kernel
  obtain ⟨hstate, hnumber, hidentity, hnone⟩ := hgate
  refine ⟨hnumber, (startRecords_agree (some firstHarness) 0 none (by decide) reopenedGate hfresh).2
    0 secondHarness hstate hnumber (by decide) hidentity (fun content hcontent => ?_) []⟩
  rw [hnone] at hcontent
  cases hcontent

/-- Generation one is started by the first harness and closed before it is archived, and the run is
opened by the second one. -/
def replacedHarness : List Operation :=
  firstGeneration (some firstHarness) ++ [.continueGeneration fortunate,
    .finishTransition fortunate, .reopen (some (some secondHarness))]

/-- **The start that is refused**: the gate is reopened and the transition to the second harness is
recorded, but the record of generation one is still that of the first harness. -/
theorem startRecord_refused :
    let closed := performAll (newExperiment (some firstHarness) 0 none) replacedHarness
    let gate := (perform closed (.reopenAtGate fortunate)).1
    (perform closed (.reopenAtGate fortunate)).2 = .ok () ∧
      currentIdentity gate.disk.harness = .ok (some secondHarness) ∧
      gate.process.generationNumber = some 0 ∧
      (perform (perform gate (.continueGeneration fortunate)).1 (.finishTransition fortunate)).2 =
        .error (.harness (.immutable 1)) := by
  decide +kernel

end Carcer.Experiment
