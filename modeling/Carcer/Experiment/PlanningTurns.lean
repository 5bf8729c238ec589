import Carcer.Experiment.RuntimeLease
import Carcer.Provenance.Planning

/-!
# Planning evidence over the boots of a run

The first turn of an implementor allocates the planning evidence of the generation that is under
way. `Close` and `ReopenAtGate` leave `planning-evidence` alone, the number of a generation that was
closed before it was archived is given out again, and `Begin` makes the directory of the number
exclusively. So the directories are those of the boots that began their first turn, whatever became
of the boots.

## Main definitions

* `PlannedRun`: a run, what is in `planning-evidence`, and which boots began their first turn
* `PlannedStep`, `PlannedRun.advance`: operations of the runtime and first turns

## Main results

* `PlannedRun.Allocated.advance`: the directories are those of the boots that began their first turn
* `firstTurn_allocates_iff`: the first turn of a boot gets its evidence exactly when no earlier boot
  of the same number began its own
* `restartedGeneration_refused`: a generation that is started again, and refused
-/

namespace Carcer.Experiment

open Carcer.Wire Carcer.Disk Carcer.Guest Carcer.Provenance List

/-- A run with its planning evidence. -/
structure PlannedRun where
  run : Run
  /-- What `planning-evidence` is in the run directory. -/
  planning : Option Entry
  /-- The numbers of the boots that began their first turn. -/
  begun : List UInt64
  /-- The boot that is under way began its first turn. -/
  turned : Bool

inductive PlannedStep
  | operation (operation : Operation)
  /-- A session begins its first turn, on a thread. -/
  | firstTurn (threadID : Bytes)

/-- A thread that evidence can be recorded for. -/
def validThread (threadID : Bytes) : Bool := threadID ≠ [] ∧ utf8Valid threadID

namespace PlannedRun

/-- What `Begin` does for a generation of the run. -/
def allocate (threadID : Bytes) (generation : UInt64) (s : PlannedRun) :
    Option Entry × Except PlanningError PlanningEvidence :=
  beginPlanning s.run.process.identity generation threadID s.planning

/-- `RunInitialTurn`, as far as it allocates the evidence of the generation that is under way.
Nothing is allocated where none is, and where the boot began its first turn already. -/
def initialTurn (threadID : Bytes) (s : PlannedRun) :
    Option (Option Entry × Except PlanningError PlanningEvidence) :=
  if s.run.process.active ∧ s.turned = false then
    s.run.process.generationNumber.map fun generation => s.allocate threadID generation
  else none

/-- One step. A boot is over when no generation is under way. -/
def advance (s : PlannedRun) : PlannedStep → PlannedRun
  | .operation operation =>
    let run := (perform s.run operation).1
    { s with run := run, turned := s.turned && run.process.active }
  | .firstTurn threadID =>
    match s.initialTurn threadID with
    | none => s
    | some (planning, _) =>
      -- a thread that is refused leaves nothing behind
      let generations := if validThread threadID then s.run.process.generationNumber.toList else []
      { s with planning := planning, begun := s.begun ++ generations, turned := true }

/-- The steps of a history, one after the other. -/
def advanceAll (s : PlannedRun) (steps : List PlannedStep) : PlannedRun := steps.foldl advance s

def new (identity : Option HarnessIdentity) (capacity : Budget) (bootstrap : Option Bytes) :
    PlannedRun := ⟨newExperiment identity capacity bootstrap, none, [], false⟩

end PlannedRun

/-! ### Allocating -/

section Allocating

variable {identity : Option HarnessIdentity} {threadID : Bytes} {root : Option Entry}

/-- The root is not there yet, or it is a directory. -/
def PlanningRoot : Option Entry → Prop
  | none => True
  | some (.directory _) => True
  | some _ => False

theorem planningDirectory_injective : Function.Injective planningDirectory := fun _ _ h =>
  UInt64.toNat_inj.mp (numbered_injective _ _ _ h)

/-- **What `Begin` does** for a thread and an identity that it accepts. -/
theorem beginPlanning_eq (hroot : PlanningRoot root) (hthread : validThread threadID = true)
    (hidentity : ∀ id ∈ identity, id.Valid) (generation : UInt64) :
    beginPlanning identity generation threadID root =
      match (Entry.entries root).entry (planningDirectory generation) with
      | some _ => (root, .error (.alreadyExists generation))
      | none =>
        (some (.directory ((Entry.entries root).put (planningDirectory generation)
          (.directory ((allocatedEvidence generation threadID identity).files.map
            fun file => (file.1, .file file.2))))),
          .ok (allocatedEvidence generation threadID identity)) := by
  have hvalid : identity.elim (.ok ()) validateHarnessIdentity = .ok () := by
    cases identity with
    | none => rfl
    | some id => exact hidentity id rfl
  simp only [validThread, decide_eq_true_eq] at hthread
  have hutf8 : ¬ utf8Valid threadID = false := by simp [hthread.2]
  unfold beginPlanning
  rw [if_neg hthread.1, if_neg hutf8]
  cases root with
  | none =>
    cases hentry : (Entry.entries none).entry (planningDirectory generation) <;>
      simp only [hvalid, hentry]
  | some entry =>
    cases entry with
    | directory entries =>
      cases hentry : (Entry.entries (some (.directory entries))).entry
          (planningDirectory generation) <;>
        simp only [hvalid, hentry]
    | file | symlink | special => exact hroot.elim

end Allocating

/-! ### Runs -/

namespace PlannedRun

variable {s : PlannedRun}

/-- **The directories of `planning-evidence`** are those of the boots that began their first
turn. -/
structure Allocated (s : PlannedRun) : Prop where
  root : PlanningRoot s.planning
  directories : ∀ generation,
    (Entry.entries s.planning).entry (planningDirectory generation) = none ↔ generation ∉ s.begun

theorem Allocated.allocate (h : s.Allocated) (hsound : Sound s.run) {threadID : Bytes}
    (hthread : validThread threadID = true) (generation : UInt64) :
    (s.allocate threadID generation).2 =
        (if generation ∈ s.begun then .error (.alreadyExists generation)
          else .ok (allocatedEvidence generation threadID s.run.process.identity)) ∧
      PlanningRoot (s.allocate threadID generation).1 ∧
      ∀ other, (Entry.entries (s.allocate threadID generation).1).entry (planningDirectory other) =
        none ↔ other ∉ s.begun ++ [generation] := by
  have hbegin : s.allocate threadID generation = _ :=
    beginPlanning_eq h.root hthread hsound.identity generation
  cases hentry : (Entry.entries s.planning).entry (planningDirectory generation) with
  | some entry =>
    -- the directory is there already
    have hbegun : generation ∈ s.begun := by
      by_contra hfresh
      rw [(h.directories generation).mpr hfresh] at hentry
      cases hentry
    rw [hbegin, hentry, if_pos hbegun]
    refine ⟨rfl, h.root, fun other => (h.directories other).trans ?_⟩
    have hadded : other ∈ s.begun ++ [generation] ↔ other ∈ s.begun := by
      simp only [mem_append, mem_singleton, or_iff_left_iff_imp]
      rintro rfl
      exact hbegun
    rw [hadded]
  | none =>
    have hfresh := (h.directories generation).mp hentry
    rw [hbegin, hentry, if_neg hfresh]
    refine ⟨rfl, trivial, fun other => ?_⟩
    change (Named.put _ _ _).entry _ = none ↔ _
    rw [mem_append, mem_singleton, not_or]
    by_cases hother : other = generation
    · subst hother
      simp
    rw [Named.entry_put_of_ne (fun heq => hother (planningDirectory_injective heq)),
      h.directories other]
    simp [hother]

theorem initialTurn_eq_some {threadID : Bytes} {planning result}
    (h : s.initialTurn threadID = some (planning, result)) :
    ∃ generation, s.run.process.generationNumber = some generation ∧
      s.allocate threadID generation = (planning, result) := by
  unfold initialTurn at h
  split_ifs at h
  exact Option.map_eq_some_iff.mp h

theorem allocate_invalid {threadID : Bytes} (h : ¬ validThread threadID = true)
    (generation : UInt64) : (s.allocate threadID generation).1 = s.planning := by
  simp only [validThread, decide_eq_true_eq, not_and] at h
  unfold allocate beginPlanning
  split_ifs with hempty hutf8
  · rfl
  · rfl
  · exact absurd (h hempty) (by simpa using hutf8)

/-- Every step keeps the runtime sound, and the directories those of the boots. -/
theorem Allocated.advance (h : s.Allocated) (hsound : Sound s.run) (step : PlannedStep) :
    (s.advance step).Allocated ∧ Sound (s.advance step).run := by
  cases step with
  | operation operation => exact ⟨⟨h.root, h.directories⟩, hsound.step (perform_effect _ _)⟩
  | firstTurn threadID =>
    simp only [PlannedRun.advance]
    rcases hturn : s.initialTurn threadID with _ | turn
    · exact ⟨h, hsound⟩
    obtain ⟨generation, hnumber, hallocate⟩ := initialTurn_eq_some hturn
    refine ⟨?_, hsound⟩
    by_cases hthread : validThread threadID = true
    · obtain ⟨-, hroot, hdirectories⟩ := h.allocate hsound hthread generation
      rw [hallocate] at hroot hdirectories
      refine ⟨hroot, ?_⟩
      simpa only [hthread, if_true, hnumber, Option.toList_some] using hdirectories
    have hsame := allocate_invalid hthread generation (s := s)
    rw [hallocate] at hsame
    obtain ⟨planning, result⟩ := turn
    obtain rfl : planning = s.planning := hsame
    refine ⟨h.root, ?_⟩
    simpa only [hthread, Bool.false_eq_true, if_false, append_nil] using h.directories

theorem Allocated.advanceAll (h : s.Allocated) (hsound : Sound s.run) (steps : List PlannedStep) :
    (s.advanceAll steps).Allocated ∧ Sound (s.advanceAll steps).run := by
  induction steps generalizing s with
  | nil => exact ⟨h, hsound⟩
  | cons step steps ih =>
    obtain ⟨hnext, hsound⟩ := h.advance hsound step
    exact ih hnext hsound

theorem allocated_new (identity : Option HarnessIdentity) (capacity : Budget)
    (bootstrap : Option Bytes) : (new identity capacity bootstrap).Allocated :=
  ⟨trivial, fun _ => ⟨fun _ => not_mem_nil, fun _ => rfl⟩⟩

end PlannedRun

/-- **The first turn of a boot gets its evidence** exactly when no earlier boot of the same number
began its own first turn, in every history of a run. -/
theorem firstTurn_allocates_iff (identity : Option HarnessIdentity) (capacity : Budget)
    (bootstrap : Option Bytes) (hcapacity : capacity.Valid) (steps : List PlannedStep)
    (generation : UInt64) (threadID : Bytes) (hthread : validThread threadID = true)
    {planning : Option Entry} {result : Except PlanningError PlanningEvidence}
    (hnumber : ((PlannedRun.new identity capacity bootstrap).advanceAll
      steps).run.process.generationNumber = some generation)
    (hturn : ((PlannedRun.new identity capacity bootstrap).advanceAll steps).initialTurn threadID =
      some (planning, result)) :
    ((∃ evidence, result = .ok evidence) ↔
        generation ∉ ((PlannedRun.new identity capacity bootstrap).advanceAll steps).begun) ∧
      (result = .error (.alreadyExists generation) ↔
        generation ∈ ((PlannedRun.new identity capacity bootstrap).advanceAll steps).begun) := by
  obtain ⟨hallocated, hsound⟩ := (PlannedRun.allocated_new identity capacity bootstrap).advanceAll
    (sound_newExperiment hcapacity bootstrap) steps
  obtain ⟨current, hcurrent, hallocate⟩ := PlannedRun.initialTurn_eq_some hturn
  obtain rfl := Option.mem_unique hnumber hcurrent
  have hresult := (hallocated.allocate hsound hthread generation).1
  rw [hallocate] at hresult
  obtain rfl : result = _ := hresult
  split_ifs with hbegun
  iterate 2 simp [hbegun]

/-- A generation is started and begins its first turn. -/
def startedGeneration : List PlannedStep :=
  (firstGeneration none).map .operation ++
    [.operation (.continueGeneration fortunate), .operation (.finishTransition fortunate)]

/-- The run is closed and reopened at its gate, and generation one is started again. -/
def restart : List PlannedStep :=
  [.operation (.reopen (some none)), .operation (.reopenAtGate fortunate),
    .operation (.continueGeneration fortunate), .operation (.finishTransition fortunate)]

/-- The second boot of generation one gets its evidence when the first one had no turn. -/
theorem firstTurn_allocates_successor :
    ∃ planning result, ((PlannedRun.new none 0 none).advanceAll
        (startedGeneration ++ restart)).initialTurn (ascii "thread") = some (planning, result) ∧
      ∃ evidence, result = .ok evidence := by
  have hnumber : ((PlannedRun.new none 0 none).advanceAll
      (startedGeneration ++ restart)).run.process.generationNumber = some 1 := by decide +kernel
  have hbegun : 1 ∉ ((PlannedRun.new none 0 none).advanceAll
      (startedGeneration ++ restart)).begun := by decide +kernel
  have hsome : (((PlannedRun.new none 0 none).advanceAll
      (startedGeneration ++ restart)).initialTurn (ascii "thread")).isSome := by decide +kernel
  obtain ⟨⟨planning, result⟩, hturn⟩ := Option.isSome_iff_exists.mp hsome
  exact ⟨planning, result, hturn, ((firstTurn_allocates_iff none 0 none (by decide)
    (startedGeneration ++ restart) 1 (ascii "thread") (by decide) hnumber hturn).1).mpr hbegun⟩

/-- Generation one begins its first turn, and is started again. -/
def restartedGeneration : List PlannedStep :=
  startedGeneration ++ .firstTurn (ascii "first") :: restart

/-- **The first turn that is refused**: the second boot of generation one is under way, no boot of
it was archived, and its evidence exists already. -/
theorem restartedGeneration_refused :
    let s := (PlannedRun.new none 0 none).advanceAll restartedGeneration
    s.run.process.state = .running ∧ s.run.process.generationNumber = some 1 ∧
      s.turned = false ∧ s.run.disk.archives.map ArchivedGeneration.generation = [0] ∧
      (s.initialTurn (ascii "second")).map Prod.snd = some (.error (.alreadyExists 1)) := by
  decide +kernel

end Carcer.Experiment
