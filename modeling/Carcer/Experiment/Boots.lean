import Carcer.Experiment.RequestViews

/-!
# The boots of a run

A generation is booted, and its boot ends in an archive, completed or aborted, or it is lost: the
run is closed, or the archive cannot be written. The number of a boot that is lost is given out
again, so that a number does not say which boot is meant. Here the boots of a run are counted,
beside the runtime and without a say in what it does.

## Main definitions

* `BootedRun`: a run with its boots
* `BootedRun.Eligible`: the boot that is under way, and those of its completed ancestors
* `BootedRun.Discarded`: a boot that was lost, aborted or rolled back

## Main results

* `bootEffect`: what an operation does to the boots
* `BootsSound.operate_kept`, `BootsSound.operate_began`, `BootsSound.operate_ended`: every archive
  is that of one boot, which had its number
* `BootsSound.not_discarded`: an eligible boot was not discarded
-/

namespace Carcer.Experiment

open Carcer.Wire List

/-! ### One operation -/

/-- **What an operation does to the boot that is under way**: it leaves it alone or loses it, begins
one, or archives it. -/
inductive BootEffect (run run' : Run) : Prop
  | kept (archives : run'.disk.archives = run.disk.archives)
      (active : run'.process.active = true → run.process.active = true ∧
        run'.process.generationNumber = run.process.generationNumber ∧
        run'.process.currentParent = run.process.currentParent)
  | began (archives : run'.disk.archives = run.disk.archives)
      (inactive : run.process.active = false) (active : run'.process.active = true)
      (parent : ∀ parent ∈ run'.process.currentParent,
        ∃ archive ∈ run.disk.archives, archive.generation = parent)
  | ended {archive : ArchivedGeneration}
      (archives : run'.disk.archives = run.disk.archives ++ [archive])
      (active : run.process.active = true)
      (number : run.process.generationNumber = some archive.generation)
      (inactive : run'.process.active = false)

theorem active_iff {process : CodexOSRun} :
    process.active = true ↔ process.state = .running ∨ process.state = .paused := by
  simp [CodexOSRun.active]

theorem inactive_of_state {process : CodexOSRun}
    (h : process.state = .stopped ∨ process.state = .awaitingNextGeneration) :
    process.active = false := by
  rcases h with h | h <;> simp [CodexOSRun.active, h]

section Operations

variable {run run' : Run} {operation : Operation}

theorem bootEffect_of_inactive (harchives : run'.disk.archives = run.disk.archives)
    (h : run'.process.state = .stopped ∨ run'.process.state = .awaitingNextGeneration) :
    BootEffect run run' :=
  .kept harchives fun hactive => absurd hactive (by simp [inactive_of_state h])

theorem archives_of_recorded {disk disk' harness} {suffix : Bytes} {generation : UInt64}
    (h : recordHarnessGenerationStart disk harness suffix generation = .ok disk') :
    disk'.archives = disk.archives := by
  obtain ⟨store, rfl⟩ := recordHarnessGenerationStart_archives h
  rfl

/-- The parent of the generation that starts next is an archive. -/
theorem parent_nextGeneration (h : Sound run) {selection next capacity} {image : Bool}
    (hgate : AtGate run) (hselected : Selected run.process selection)
    (hnext : nextGeneration run.disk.archives capacity image selection = .ok next) :
    ∃ archive ∈ run.disk.archives, archive.generation = next.parent := by
  rcases (extends_nextGeneration h hgate hselected hnext .completed).ancestry with
    ⟨-, hnone, -⟩ | ⟨i, parent, hi, hparent, -, -⟩
  · cases hnone
  rw [getElem?_map] at hi
  obtain ⟨archive, harchive, rfl⟩ := Option.map_eq_some_iff.mp hi
  exact ⟨archive, mem_of_getElem? harchive, (Option.some.inj hparent).symm⟩

theorem bootEffect (h : Sound run) (heffect : Effect run operation run') : BootEffect run run' := by
  cases heffect with
  | refused | leased | released | resized => exact .kept rfl fun hactive => ⟨hactive, rfl, rfl⟩
  | opened | closed => exact bootEffect_of_inactive rfl (.inl rfl)
  | started image hstopped hunnumbered hrecorded =>
    refine .began (archives_of_recorded hrecorded) (inactive_of_state (.inl hstopped)) rfl ?_
    intro parent hparent
    have hnone : run.process.currentParent = some parent := hparent
    rw [h.stopped hstopped] at hnone
    cases hnone
  | atGate => exact bootEffect_of_inactive rfl (.inr rfl)
  | selected _ hlive hfree hselect =>
    exact bootEffect_of_inactive rfl (.inr (selected_of_select hselect).2.2.2)
  | dropped hbooting hdisk =>
    have hawaiting := (h.booting _ hbooting).1
    rcases hdisk with rfl | ⟨next, -, hrecorded⟩
    · exact bootEffect_of_inactive rfl (.inr hawaiting)
    · exact bootEffect_of_inactive (archives_of_recorded hrecorded) (.inr hawaiting)
  | booted image hbooting hnext hrecorded =>
    obtain ⟨hawaiting, -, hselected⟩ := h.booting _ hbooting
    have harchives := archives_of_recorded hrecorded
    refine .began harchives (inactive_of_state (.inr hawaiting)) rfl ?_
    intro parent hparent
    cases hparent
    exact parent_nextGeneration h (h.gate hawaiting) hselected hnext
  | startedOffline _ hoffline hselect hnext =>
    obtain ⟨hselected, -, -, hawaiting⟩ := selected_of_select hselect
    refine .began rfl (inactive_of_state (.inr hawaiting)) rfl ?_
    intro parent hparent
    cases hparent
    exact parent_nextGeneration h (h.gate hawaiting) hselected hnext
  | unarchived _ hactive hnumber hrecorded hprocess =>
    rcases hprocess with rfl | rfl
    · exact .kept (archives_of_recorded hrecorded) fun hactive => ⟨hactive, rfl, rfl⟩
    · exact bootEffect_of_inactive (archives_of_recorded hrecorded) (.inl rfl)
  | ended _ hends hprocess =>
    refine .ended (congrArg (· ++ [_]) hends.archives_eq) (active_iff.mpr hends.active)
      hends.number (inactive_of_state (.inr ?_))
    rcases hprocess with ⟨-, handoff, snapshot, -, -, rfl⟩ | ⟨-, rfl | rfl⟩ <;> rfl
  | unreadable _ hends hunread => exact absurd (hends.readable h) hunread
  | halted _ hactive => exact .kept rfl fun _ => ⟨active_iff.mpr hactive, rfl, rfl⟩

end Operations

/-! ### Boots -/

structure BootedRun where
  run : Run
  /-- The numbers of the generations that were booted, one for each boot. -/
  boots : List UInt64
  /-- The boot of each archive. -/
  archived : List ℕ

namespace BootedRun

variable (s : BootedRun)

/-- The boot that is under way. -/
def currentBoot : Option ℕ := if s.run.process.active then some (s.boots.length - 1) else none

/-- An operation of the runtime. A boot begins when a generation is under way and none was before,
and a new archive is that of the boot that was under way. -/
def operate (operation : Operation) : BootedRun :=
  let run := (perform s.run operation).1
  { run := run
    boots := if !s.run.process.active && run.process.active then
      s.boots ++ run.process.generationNumber.toList else s.boots
    archived := if s.run.disk.archives.length < run.disk.archives.length then
      s.archived ++ s.currentBoot.toList else s.archived }

/-- What the ancestry begins with: the parent of the generation that is under way, or the generation
at the gate. -/
def lineageHead : Option UInt64 :=
  if s.run.process.active then s.run.process.currentParent
  else if s.run.process.state = .awaitingNextGeneration then s.run.process.generationNumber
  else none

/-- **The boots whose reports apply**: the one that is under way, and those that were archived as
completed ancestors of it. At the gate, the ancestry begins with the archive of the gate. -/
def Eligible (boot : ℕ) : Prop :=
  s.currentBoot = some boot ∨ ∃ generation, Lineage s.run.disk.archives s.lineageHead generation ∧
    Completed s.run.disk.archives generation ∧ s.archived[generation.toNat]? = some boot

/-- **A boot that was discarded.** -/
inductive Discarded (boot : ℕ) : Prop
  /-- It is not under way, and was not archived. -/
  | lost (ended : s.currentBoot ≠ some boot) (unarchived : boot ∉ s.archived)
  | aborted {place : ℕ} {archive : ArchivedGeneration} (archived : s.archived[place]? = some boot)
      (place_eq : s.run.disk.archives[place]? = some archive)
      (outcome : archive.metadata.outcome = .aborted)
  /-- It was archived, and is no ancestor. -/
  | rolledBack {place : ℕ} {archive : ArchivedGeneration}
      (archived : s.archived[place]? = some boot)
      (place_eq : s.run.disk.archives[place]? = some archive)
      (excluded : ¬Lineage s.run.disk.archives s.lineageHead archive.generation)

end BootedRun

variable {s : BootedRun}

theorem currentBoot_of_active (h : s.run.process.active = true) :
    s.currentBoot = some (s.boots.length - 1) := if_pos h

theorem currentBoot_of_inactive (h : s.run.process.active = false) : s.currentBoot = none := by
  rw [BootedRun.currentBoot, h]
  rfl

theorem active_of_currentBoot {boot : ℕ} (h : s.currentBoot = some boot) :
    s.run.process.active = true ∧ boot = s.boots.length - 1 := by
  unfold BootedRun.currentBoot at h
  split_ifs at h with hactive
  exact ⟨hactive, (Option.some.inj h).symm⟩

/-- **Every archive is that of one boot, which had its number.** -/
structure BootsSound (s : BootedRun) : Prop where
  sound : Sound s.run
  /-- The parent of the generation that is under way is an archive. -/
  parent : s.run.process.active = true → ∀ parent ∈ s.run.process.currentParent,
    ∃ archive ∈ s.run.disk.archives, archive.generation = parent
  current : ∀ boot, s.currentBoot = some boot → s.boots[boot]? = s.run.process.generationNumber
  length : s.archived.length = s.run.disk.archives.length
  numbered : ∀ (place boot : ℕ) archive, s.archived[place]? = some boot →
    s.run.disk.archives[place]? = some archive → s.boots[boot]? = some archive.generation
  past : ∀ boot ∈ s.archived, s.currentBoot ≠ some boot
  distinct : s.archived.Nodup

section Steps

variable {operation : Operation}

theorem Sound.number_of_active {run : Run} (h : Sound run) (hactive : run.process.active = true) :
    ∃ number, run.process.generationNumber = some number := by
  obtain ⟨number, -, hnumber, -⟩ := h.underWay (active_iff.mp hactive)
  exact ⟨number, hnumber⟩

theorem BootsSound.lt_length (h : BootsSound s) {boot : ℕ} (hboot : boot ∈ s.archived) :
    boot < s.boots.length := by
  obtain ⟨place, hplace⟩ := mem_iff_getElem?.mp hboot
  obtain ⟨hlt, -⟩ := List.getElem?_eq_some_iff.mp hplace
  rw [h.length] at hlt
  have hnumber := h.numbered place boot _ hplace (getElem?_eq_getElem hlt)
  exact (List.getElem?_eq_some_iff.mp hnumber).1

theorem BootsSound.operate_kept (h : BootsSound s)
    (harchives : (perform s.run operation).1.disk.archives = s.run.disk.archives)
    (hactive : (perform s.run operation).1.process.active = true → s.run.process.active = true ∧
      (perform s.run operation).1.process.generationNumber = s.run.process.generationNumber ∧
      (perform s.run operation).1.process.currentParent = s.run.process.currentParent) :
    (s.operate operation).boots = s.boots ∧ (s.operate operation).archived = s.archived ∧
      (∀ boot, (s.operate operation).currentBoot = some boot → s.currentBoot = some boot) ∧
      BootsSound (s.operate operation) := by
  have hboots : (s.operate operation).boots = s.boots := by
    refine if_neg ?_
    rw [Bool.and_eq_true, Bool.not_eq_true']
    rintro ⟨hinactive, hafter⟩
    rw [(hactive hafter).1] at hinactive
    cases hinactive
  have harchived : (s.operate operation).archived = s.archived := by
    refine if_neg ?_
    rw [harchives]
    exact lt_irrefl _
  have hrun : (s.operate operation).run = (perform s.run operation).1 := rfl
  have hcurrent : ∀ boot, (s.operate operation).currentBoot = some boot →
      s.currentBoot = some boot := by
    intro boot hboot
    obtain ⟨hafter, rfl⟩ := active_of_currentBoot hboot
    rw [hboots, currentBoot_of_active (hactive hafter).1]
  refine ⟨hboots, harchived, hcurrent, h.sound.step (perform_effect _ _), ?_, ?_, ?_, ?_, ?_, ?_⟩
  · intro hafter
    rw [hrun] at hafter ⊢
    obtain ⟨hbefore, -, hparent⟩ := hactive hafter
    rw [hparent, harchives]
    exact h.parent hbefore
  · intro boot hboot
    have hafter := (active_of_currentBoot hboot).1
    rw [hboots, hrun, (hactive hafter).2.1]
    exact h.current boot (hcurrent boot hboot)
  · rw [harchived, hrun, harchives]
    exact h.length
  · rw [harchived, hboots, hrun, harchives]
    exact h.numbered
  · rw [harchived]
    exact fun boot hboot hother => h.past boot hboot (hcurrent boot hother)
  · rw [harchived]
    exact h.distinct

theorem BootsSound.operate_began (h : BootsSound s)
    (harchives : (perform s.run operation).1.disk.archives = s.run.disk.archives)
    (hinactive : s.run.process.active = false)
    (hactive : (perform s.run operation).1.process.active = true)
    (hparent : ∀ parent ∈ (perform s.run operation).1.process.currentParent,
      ∃ archive ∈ s.run.disk.archives, archive.generation = parent) :
    ∃ number, (perform s.run operation).1.process.generationNumber = some number ∧
      (s.operate operation).boots = s.boots ++ [number] ∧
      (s.operate operation).archived = s.archived ∧
      (s.operate operation).currentBoot = some s.boots.length ∧
      BootsSound (s.operate operation) := by
  have hsound : Sound (perform s.run operation).1 := h.sound.step (perform_effect _ _)
  obtain ⟨number, hnumber⟩ := hsound.number_of_active hactive
  have hboots : (s.operate operation).boots = s.boots ++ [number] := by
    refine (if_pos ?_).trans (by rw [hnumber]; rfl)
    rw [hinactive, hactive]
    rfl
  have harchived : (s.operate operation).archived = s.archived := by
    refine if_neg ?_
    rw [harchives]
    exact lt_irrefl _
  have hrun : (s.operate operation).run = (perform s.run operation).1 := rfl
  have hcurrent : (s.operate operation).currentBoot = some s.boots.length := by
    rw [currentBoot_of_active hactive, hboots]
    simp
  refine ⟨number, hnumber, hboots, harchived, hcurrent, hsound, ?_, ?_, ?_, ?_, ?_, ?_⟩
  · intro _
    rw [hrun, harchives]
    exact hparent
  · intro boot hboot
    obtain rfl := Option.mem_unique hcurrent hboot
    rw [hboots, hrun, hnumber]
    simp
  · rw [harchived, hrun, harchives]
    exact h.length
  · intro place boot archive hplace harchive
    rw [harchived] at hplace
    rw [hrun, harchives] at harchive
    rw [hboots, getElem?_append_left (h.lt_length (mem_of_getElem? hplace))]
    exact h.numbered place boot archive hplace harchive
  · intro boot hboot hother
    rw [harchived] at hboot
    have hlt := h.lt_length hboot
    obtain rfl := Option.mem_unique hcurrent hother
    exact absurd hlt (lt_irrefl _)
  · rw [harchived]
    exact h.distinct

theorem BootsSound.operate_ended (h : BootsSound s) {archive}
    (harchives : (perform s.run operation).1.disk.archives = s.run.disk.archives ++ [archive])
    (hactive : s.run.process.active = true)
    (hnumber : s.run.process.generationNumber = some archive.generation)
    (hinactive : (perform s.run operation).1.process.active = false) :
    ∃ boot, s.currentBoot = some boot ∧ (s.operate operation).boots = s.boots ∧
      (s.operate operation).archived = s.archived ++ [boot] ∧
      (s.operate operation).currentBoot = none ∧ BootsSound (s.operate operation) := by
  have hboot := currentBoot_of_active hactive
  have hboots : (s.operate operation).boots = s.boots := by
    refine if_neg ?_
    rw [hactive]
    exact Bool.false_ne_true
  have harchived : (s.operate operation).archived = s.archived ++ [s.boots.length - 1] := by
    refine (if_pos ?_).trans (by rw [hboot]; rfl)
    rw [harchives, length_append]
    exact Nat.lt_succ_self _
  have hrun : (s.operate operation).run = (perform s.run operation).1 := rfl
  have hcurrent : (s.operate operation).currentBoot = none := currentBoot_of_inactive hinactive
  refine ⟨_, hboot, hboots, harchived, hcurrent, h.sound.step (perform_effect _ _), ?_, ?_, ?_, ?_,
    ?_, ?_⟩
  · intro hafter
    rw [hrun, hinactive] at hafter
    cases hafter
  · intro boot hother
    rw [hcurrent] at hother
    cases hother
  · rw [harchived, hrun, harchives, length_append, length_append, h.length]
    rfl
  · intro place boot found hplace hfound
    rw [harchived] at hplace
    rw [hrun, harchives] at hfound
    rw [hboots]
    rcases Nat.lt_or_ge place s.archived.length with hlt | hle
    · rw [getElem?_append_left hlt] at hplace
      rw [getElem?_append_left (h.length ▸ hlt)] at hfound
      exact h.numbered place boot found hplace hfound
    rw [getElem?_append_right hle] at hplace
    rw [getElem?_append_right (h.length ▸ hle)] at hfound
    obtain rfl := mem_singleton.mp (mem_of_getElem? hplace)
    obtain rfl := mem_singleton.mp (mem_of_getElem? hfound)
    rw [h.current _ hboot, hnumber]
  · intro boot _ hother
    rw [hcurrent] at hother
    cases hother
  · rw [harchived]
    refine nodup_append.mpr ⟨h.distinct, nodup_singleton _, ?_⟩
    intro boot hmem other hother
    obtain rfl := mem_singleton.mp hother
    rintro rfl
    exact h.past _ hmem hboot

end Steps

theorem bootsSound_new {identity : Option Provenance.HarnessIdentity} {capacity : Guest.Budget}
    (hcapacity : capacity.Valid) (bootstrap : Option Bytes) :
    BootsSound ⟨newExperiment identity capacity bootstrap, [], []⟩ := by
  have hinactive : (newExperiment identity capacity bootstrap).process.active = false :=
    inactive_of_state (.inl rfl)
  refine ⟨sound_newExperiment hcapacity bootstrap, fun hactive => ?_, fun boot hboot => ?_, rfl,
    fun place boot archive hplace => ?_, fun boot hboot => ?_, nodup_nil⟩
  · rw [hinactive] at hactive
    cases hactive
  · rw [currentBoot_of_inactive hinactive] at hboot
    cases hboot
  · rw [getElem?_nil] at hplace
    cases hplace
  · cases hboot

theorem BootsSound.archived_of_completed (h : BootsSound s) {generation : UInt64}
    (hcompleted : Completed s.run.disk.archives generation) :
    ∃ boot archive, s.archived[generation.toNat]? = some boot ∧
      s.run.disk.archives[generation.toNat]? = some archive ∧ archive.generation = generation ∧
      archive.metadata.outcome = .completed ∧ s.boots[boot]? = some generation := by
  obtain ⟨archive, harchive, rfl, houtcome⟩ := hcompleted
  obtain ⟨place, hplace⟩ := mem_iff_getElem?.mp harchive
  have hnumber := h.sound.number hplace
  have hlt := (List.getElem?_eq_some_iff.mp hplace).1
  rw [← h.length] at hlt
  have hboot := getElem?_eq_getElem hlt
  rw [hnumber]
  exact ⟨_, archive, hboot, hplace, rfl, houtcome, h.numbered place _ archive hboot hplace⟩

/-- **An eligible boot was not discarded.** -/
theorem BootsSound.not_discarded (h : BootsSound s) {boot : ℕ} (heligible : s.Eligible boot) :
    ¬s.Discarded boot := by
  rcases heligible with hcurrent | ⟨generation, hlineage, hcompleted, hboot⟩
  · rintro (⟨hover, -⟩ | ⟨harchived, -, -⟩ | ⟨harchived, -, -⟩)
    · exact hover hcurrent
    all_goals exact h.past boot (mem_of_getElem? harchived) hcurrent
  obtain ⟨other, archive, hother, harchive, rfl, houtcome, -⟩ := h.archived_of_completed hcompleted
  -- a boot has one archive
  have hsame {place : ℕ} {found : ArchivedGeneration} (hplace : s.archived[place]? = some boot)
      (hfound : s.run.disk.archives[place]? = some found) : found = archive := by
    have hlt := (List.getElem?_eq_some_iff.mp hplace).1
    obtain rfl : place = archive.generation.toNat :=
      (getElem?_inj hlt h.distinct).mp (hplace.trans hboot.symm)
    exact Option.mem_unique hfound harchive
  rintro (⟨-, hunarchived⟩ | ⟨harchived, hplace, haborted⟩ | ⟨harchived, hplace, hexcluded⟩)
  · exact hunarchived (mem_of_getElem? hboot)
  · rw [hsame harchived hplace, houtcome] at haborted
    cases haborted
  · rw [hsame harchived hplace] at hexcluded
    exact hexcluded hlineage

end Carcer.Experiment
