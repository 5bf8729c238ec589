import Carcer.Experiment.RuntimeHistory

/-!
# The lease of a finished generation

An exit interview holds a lease of the gate. Every operation that would leave the gate, or change
the capacity of the run there, asks for the lease in the same critical section in which it decides;
and the lease is not given while a generation boots. So the gate stays as it is until it is
released.

## Main definitions

* `Lease`: what holds while the lease is held

## Main results

* `lease_exclusive`: nothing changes at the gate while the lease is held
-/

namespace Carcer.Experiment

open Carcer.Wire Carcer.Disk Carcer.Guest Carcer.Provenance

/-- What holds while the lease is held: the object is at the gate of that generation. -/
def Lease (process : CodexOSRun) : Prop :=
  ∀ generation, process.retainedFinish = some generation →
    process.state = .awaitingNextGeneration ∧ process.transitioning = false ∧
      process.pendingFinish ≠ none ∧ process.generationNumber = some generation

variable {run run' : Run} {operation : Operation}

theorem Lease.none_of_state (h : Lease run.process)
    (hstate : run.process.state ≠ .awaitingNextGeneration) : run.process.retainedFinish = none := by
  cases hlease : run.process.retainedFinish with
  | none => rfl
  | some generation => exact absurd (h generation hlease).1 hstate

theorem Lease.none_of_booting (h : Lease run.process) (hsound : Sound run) {selection}
    (hbooting : run.process.booting = some selection) : run.process.retainedFinish = none := by
  cases hlease : run.process.retainedFinish with
  | none => rfl
  | some generation =>
    have htransitioning := (hsound.booting selection hbooting).2.1
    rw [(h generation hlease).2.1] at htransitioning
    cases htransitioning

theorem lease_of_none {process : CodexOSRun} (h : process.retainedFinish = none) :
    Lease process := by
  intro generation hlease
  rw [h] at hlease
  cases hlease

theorem ne_awaiting_of_stopped {state : RuntimeState} (h : state = .stopped) :
    state ≠ .awaitingNextGeneration := by
  rw [h]
  decide

/-- Every operation keeps the lease where it belongs. -/
theorem Lease.step (h : Lease run.process) (hsound : Sound run)
    (heffect : Effect run operation run') : Lease run'.process := by
  cases heffect with
  | refused => exact h
  | opened | closed | released => exact lease_of_none rfl
  | started image hstopped | atGate hstopped =>
    exact lease_of_none (h.none_of_state (ne_awaiting_of_stopped hstopped))
  | selected _ _ _ hselect | startedOffline _ _ hselect =>
    exact lease_of_none (selected_of_select hselect).2.2.1
  | dropped hbooting | booted image hbooting =>
    exact lease_of_none (h.none_of_booting hsound hbooting)
  | unarchived _ hactive _ _ hprocess | unreadable _ hends hunread hprocess =>
    rcases hprocess with rfl | rfl
    · exact h
    · exact lease_of_none rfl
  | ended _ hends hprocess =>
    have hnone := h.none_of_state (ne_awaiting hends.active)
    rcases hprocess with ⟨-, handoff, snapshot, -, -, rfl⟩ | ⟨-, rfl | rfl⟩
    · exact lease_of_none hnone
    all_goals exact lease_of_none rfl
  | halted _ hactive => exact lease_of_none (h.none_of_state (ne_awaiting hactive))
  | leased generation hfrozen =>
    rintro other ⟨⟩
    exact ⟨hfrozen.2.1, hfrozen.1, hfrozen.2.2.1, hfrozen.2.2.2⟩
  | resized _ _ hfree => exact lease_of_none hfree.2

theorem lease_performAll (h : Lease run.process) (hsound : Sound run)
    (operations : List Operation) : Lease (performAll run operations).process := by
  have hboth := @performAll_induction (fun _ _ => True)
    (fun run => Sound run ∧ Lease run.process) run
    ⟨hsound, h⟩ (fun _ _ h _ => ⟨h.1.step (perform_effect _ _), h.2.step h.1 (perform_effect _ _)⟩)
    operations fun _ _ _ _ => trivial
  exact hboth.2

/-- While the lease is held, an operation other than closing the run leaves the gate as it is, and
keeps the lease unless it releases it. -/
theorem Lease.frozen (h : Lease run.process) (hsound : Sound run)
    (heffect : Effect run operation run') {generation : UInt64}
    (hlease : run.process.retainedFinish = some generation)
    (hopen : ∀ live, operation ≠ .reopen live) :
    (operation = .releaseGenerationFinish generation ∨
      run'.process.retainedFinish = some generation) ∧
    run'.process.generationNumber = run.process.generationNumber ∧
    run'.process.pendingFinish = run.process.pendingFinish ∧
    run'.process.state = run.process.state ∧
    run'.process.sourceCapacity = run.process.sourceCapacity ∧
    run'.disk.sourceCapacity = run.disk.sourceCapacity := by
  obtain ⟨hawaiting, -, -, -⟩ := h generation hlease
  have hnone : ∀ {P : Prop}, run.process.retainedFinish = none → P := fun h => by
    rw [hlease] at h
    cases h
  cases heffect with
  | refused => exact ⟨.inr hlease, rfl, rfl, rfl, rfl, rfl⟩
  | opened | closed => exact absurd rfl (hopen _)
  | started image hstopped | atGate hstopped =>
    exact absurd hawaiting (ne_awaiting_of_stopped hstopped)
  | selected _ _ _ hselect | startedOffline _ _ hselect =>
    exact hnone (selected_of_select hselect).2.2.1
  | dropped hbooting | booted image hbooting => exact hnone (h.none_of_booting hsound hbooting)
  | unarchived _ hactive | halted _ hactive => exact absurd hawaiting (ne_awaiting hactive)
  | ended _ hends | unreadable _ hends => exact absurd hawaiting (ne_awaiting hends.active)
  | leased other hfrozen hunleased => exact hnone hunleased
  | released other hother =>
    obtain rfl : generation = other := Option.mem_unique hlease hother
    exact ⟨.inl rfl, rfl, rfl, rfl, rfl, rfl⟩
  | resized _ _ hfree => exact hnone hfree.2

/-- **The lease is exclusive.** In every run: a lease is given only when none is held; only its
release, or the end of the process, ends it; and while it is held no operation changes the
generation number, the pending finish, the state or the capacity of the run. -/
theorem lease_exclusive (identity : Option HarnessIdentity) (capacity : Budget)
    (bootstrap : Option Bytes) (hcapacity : capacity.Valid) (operations : List Operation) :
    let run := performAll (newExperiment identity capacity bootstrap) operations
    (∀ generation, (retainGenerationFinish generation run.process).2 = true →
      run.process.retainedFinish = none) ∧
    ∀ generation, run.process.retainedFinish = some generation →
      ∀ operation, (∀ live, operation ≠ .reopen live) →
        let run' := (perform run operation).1
        (operation = .releaseGenerationFinish generation ∨
          run'.process.retainedFinish = some generation) ∧
        run'.process.generationNumber = run.process.generationNumber ∧
        run'.process.pendingFinish = run.process.pendingFinish ∧
        run'.process.state = run.process.state ∧
        run'.process.sourceCapacity = run.process.sourceCapacity ∧
        run'.disk.sourceCapacity = run.disk.sourceCapacity := by
  intro run
  have hsound : Sound run := sound_performAll (sound_newExperiment hcapacity bootstrap) operations
  have hlease : Lease run.process :=
    lease_performAll (lease_of_none rfl) (sound_newExperiment hcapacity bootstrap) operations
  refine ⟨fun generation hgiven => ?_, fun generation hheld operation hopen =>
    hlease.frozen hsound (perform_effect run operation) hheld hopen⟩
  unfold retainGenerationFinish at hgiven
  split at hgiven
  · cases hgiven
  rename_i hfree
  simp only [not_or, not_not, Bool.not_eq_true, Option.isSome_eq_false_iff,
    Option.isNone_iff_eq_none] at hfree
  exact hfree.2.1

/-- Everything outside of the runtime goes well. -/
def fortunate : Fate := ⟨true, some (ascii "boot.iso"), true, true, true, []⟩

/-- The services of a live generation. -/
def sampleConfig : Build.ServiceConfig := ⟨0, false, false, false, fun _ => []⟩

/-- A build of no files has succeeded. -/
def sampleServices : Build.HostServices :=
  ⟨some ⟨ascii "kernel.elf", ascii "codexos.iso", [0, 0], [], ⟨[], 0⟩, ⟨[], 0⟩, ⟨[], 0⟩⟩, none⟩

/-- A guest finishes its generation. -/
def finishing : Operation :=
  .complete fortunate sampleConfig sampleServices [ascii "handoff", [0, 0]]

/-- Generation zero is started in a harness, and finished. -/
def firstGeneration (identity : Option HarnessIdentity) : List Operation :=
  [.reopen (some identity), .start fortunate, finishing]

/-- The first generation is finished, and interviewed. -/
def interviewing : List Operation := firstGeneration none ++ [.retainGenerationFinish 0]

/-- During the interview, the next generation is not started. -/
theorem lease_exclusive_interview :
    (performAll (newExperiment none 0 none) interviewing).process.retainedFinish = some 0 ∧
      (perform (performAll (newExperiment none 0 none) interviewing)
        (.continueGeneration fortunate)).1.process.state =
          (performAll (newExperiment none 0 none) interviewing).process.state := by
  have hheld : (performAll (newExperiment none 0 none) interviewing).process.retainedFinish =
      some 0 := by decide +kernel
  have hfrozen := (lease_exclusive none 0 none (by decide) interviewing).2 0 hheld
    (.continueGeneration fortunate) fun live h => nomatch h
  exact ⟨hheld, hfrozen.2.2.2.1⟩

end Carcer.Experiment
