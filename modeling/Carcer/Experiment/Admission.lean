import Carcer.Experiment.RuntimeLease

/-!
# The admission of bootstrap jobs

A live generation may have a bootstrap service, which runs jobs for the tool calls of the guest.
`Pause` and `AbortGeneration` suspend it before they look at anything else, so that no job begins
while they wait for the operation that is under way. Here are both calls with all their exits, and
what each leaves of the service.

## Main definitions

* `Service`, `Service.suspend`, `Service.activate`, `Service.admits`: the service, as far as it
  decides whether a job is admitted
* `Supervised`: a run with what `Pause` and `AbortGeneration` use of its live generation
* `pauseGeneration`, `abortGeneration`: the calls
* `AdmissionKept`: a call that fails in a running generation leaves the service as it was
* `LifecycleCall.passes`: the checks of a call, up to its first lasting effect

## Main results

* `admissionKept_iff`: which calls leave the service as it was
-/

namespace Carcer.Experiment

open Carcer.Wire

/-- `Service`, as far as it admits jobs. -/
structure Service where
  poisoned : Bool
  suspended : Bool
  /-- A job runs. -/
  active : Bool
  /-- The context of the tool call that may ask for a job, and whether it is still good. -/
  invocation : Option Bool
  deriving DecidableEq

namespace Service

/-- `Activate`: a tool call begins. -/
def activate (good : Bool) (service : Service) : Service :=
  if service.suspended then service else { service with invocation := some good }

/-- `Suspend`; a job that runs is told to stop, and is over later. -/
def suspend (service : Service) : Service :=
  { service with suspended := true, invocation := none }

/-- The check of `HandleHostService` that answers "not_in_development_or_busy". -/
def admits (service : Service) : Bool :=
  ¬(service.poisoned ∨ service.suspended ∨ service.active ∨ service.invocation ≠ some true)

end Service

/-- A run, and what is there of its live generation besides its capacity. -/
structure Supervised where
  run : Run
  /-- The client for the tools of the guest is there. -/
  toolClient : Bool
  /-- The bootstrap service, which only a run that was provisioned has. -/
  bootstrap : Option Service

/-- There is a live generation. -/
def Supervised.live (s : Supervised) : Bool :=
  (s.run.process.live.bind LiveRun.generation).isSome

/-- The service is there, and suspended. -/
def Supervised.suspended (s : Supervised) : Bool := s.bootstrap.any Service.suspended

def suspendBootstrap (s : Supervised) : Supervised :=
  if s.live then { s with bootstrap := s.bootstrap.map Service.suspend } else s

/-- The errors of the two calls. -/
inductive LifecycleError
  | runtime (cause : RuntimeError)
  /-- "generation pause context is nil" -/
  | nilContext
  /-- "CodexOS guest tool client is unavailable" -/
  | toolClient
  /-- What the monitor of the guest says to `stop` or `query-status`. -/
  | monitor
  /-- "QEMU did not pause; status is %q" -/
  | notPaused (status : Bytes)
  deriving DecidableEq

/-- What the monitor of the guest answers. -/
structure Monitor where
  /-- `stop` succeeds. -/
  stops : Bool
  /-- The answer to `query-status`. -/
  status : Option Bytes

/-- What a call leaves, and what it returns. -/
abbrev Lifecycle : Type := Supervised × Except LifecycleError Unit

/-- `Pause`; `context` says whether its context is not nil. -/
def pauseGeneration (context : Bool) (monitor : Monitor) (s : Supervised) : Lifecycle :=
  let s := suspendBootstrap s
  if s.run.process.live = none then (s, .error (.runtime .noLiveRun))
  else if context = false then (s, .error .nilContext)
  -- `requireRunningLiveGeneration`
  else if s.run.process.state ≠ .running ∨ s.run.process.generationNumber = none then
    (s, .error (.runtime .notRunning))
  else if s.live = false ∨ s.toolClient = false then (s, .error .toolClient)
  else if monitor.stops = false then (s, .error .monitor)
  else
    let s := { s with run := ⟨s.run.disk, { s.run.process with state := .paused }⟩ }
    match monitor.status with
    | none => (s, .error .monitor)
    | some status =>
      if status ≠ ascii "paused" then (s, .error (.notPaused status)) else (s, .ok ())

/-- `AbortGeneration`; the service is suspended once more when the guest is stopped. -/
def abortGeneration (fate : Fate) (reason : Bytes) (s : Supervised) : Lifecycle :=
  let performed := abort fate reason s.run
  ({ suspendBootstrap s with run := performed.1 }, performed.2.mapError .runtime)

inductive LifecycleCall
  | pause (context : Bool) (monitor : Monitor)
  | abort (fate : Fate) (reason : Bytes)

def LifecycleCall.perform (s : Supervised) : LifecycleCall → Lifecycle
  | .pause context monitor => pauseGeneration context monitor s
  | .abort fate reason => abortGeneration fate reason s

/-- **Admission is kept**: a call that fails and leaves the generation running does not leave a
service suspended that was not. -/
def AdmissionKept (s : Supervised) (call : LifecycleCall) : Prop :=
  (call.perform s).2 ≠ .ok () → (call.perform s).1.run.process.state = .running →
    s.suspended = false → (call.perform s).1.suspended = false

/-- Jobs can be admitted: a generation runs, with a service that is not suspended. -/
def Supervised.admitting (s : Supervised) : Bool :=
  s.live ∧ s.run.process.state = .running ∧ s.bootstrap.any fun service => !service.suspended

/-- The checks that an abort makes before the generation is given up: of the reason, of what the
run says about its generation, of the record of its start, and that the guest stops. -/
def abortPasses (fate : Fate) (reason : Bytes) (run : Run) : Bool :=
  (validateAbortReason reason).isOk &&
    match currentMetadata run.process .aborted with
    | .error _ => false
    | .ok metadata =>
      (recordHarnessGenerationStart run.disk run.process.identity fate.suffix
        metadata.generation).isOk && fate.stops

/-- The checks that a call makes of a running generation. -/
def LifecycleCall.passes (s : Supervised) : LifecycleCall → Bool
  | .pause context monitor =>
    context && s.run.process.generationNumber.isSome && s.toolClient && monitor.stops
  | .abort fate reason => abortPasses fate reason s.run

/-! ### The service -/

variable {s : Supervised}

theorem not_suspended_of_admitting (h : s.admitting = true) : s.suspended = false := by
  obtain ⟨-, -, hany⟩ := of_decide_eq_true h
  rw [Supervised.suspended]
  cases hservice : s.bootstrap with
  | none => rfl
  | some service => simpa [hservice] using hany

theorem suspended_suspendBootstrap (h : s.admitting = true) :
    (suspendBootstrap s).suspended = true := by
  obtain ⟨hlive, -, hany⟩ := of_decide_eq_true h
  rw [suspendBootstrap, if_pos hlive, Supervised.suspended]
  cases hservice : s.bootstrap with
  | none =>
    rw [hservice] at hany
    cases hany
  | some service => rfl

/-- Where no job can be admitted to a running generation, there is nothing to suspend. -/
theorem suspendBootstrap_of_not_admitting (h : s.admitting = false)
    (hrunning : s.run.process.state = .running) (hopen : s.suspended = false) :
    (suspendBootstrap s).suspended = false := by
  rw [suspendBootstrap]
  split_ifs with hlive
  · rw [Supervised.suspended] at hopen ⊢
    cases hservice : s.bootstrap with
    | none => rfl
    | some service =>
      simp_all [Supervised.admitting]
  · exact hopen

/-- No exit of a call does anything else to the service. -/
theorem suspended_perform (call : LifecycleCall) :
    (call.perform s).1.suspended = (suspendBootstrap s).suspended := by
  cases call with
  | pause context monitor =>
    rw [LifecycleCall.perform, pauseGeneration]
    split_ifs <;> try rfl
    dsimp only
    split
    · rfl
    · split_ifs <;> rfl
  | abort fate reason => rfl

/-! ### The exits -/

theorem run_suspendBootstrap : (suspendBootstrap s).run = s.run := by
  rw [suspendBootstrap]
  split_ifs <;> rfl

theorem toolClient_suspendBootstrap : (suspendBootstrap s).toolClient = s.toolClient := by
  rw [suspendBootstrap]
  split_ifs <;> rfl

theorem live_suspendBootstrap : (suspendBootstrap s).live = s.live := by
  rw [Supervised.live, run_suspendBootstrap, Supervised.live]

/-- A pause fails at a check and leaves the run as it was, or it passes them all, and the generation
is paused whatever the monitor says of it. -/
theorem pause_cases (context : Bool) (monitor : Monitor) (s : Supervised) :
    (pauseGeneration context monitor s).1.run = s.run ∧
        (pauseGeneration context monitor s).2 ≠ .ok () ∧
        (s.live = true → s.run.process.state = .running →
          (LifecycleCall.pause context monitor).passes s = false) ∨
      (pauseGeneration context monitor s).1.run.process.state = .paused ∧
        (LifecycleCall.pause context monitor).passes s = true := by
  rw [pauseGeneration, live_suspendBootstrap, run_suspendBootstrap, toolClient_suspendBootstrap,
    LifecycleCall.passes]
  dsimp only
  split_ifs with hnone hcontext hnumber hclient hstops
  · refine .inl ⟨run_suspendBootstrap, nofun, fun hlive => ?_⟩
    simp [Supervised.live, hnone] at hlive
  · exact .inl ⟨run_suspendBootstrap, nofun, fun _ _ => by simp [hcontext]⟩
  · refine .inl ⟨run_suspendBootstrap, nofun, fun _ hrunning => ?_⟩
    have hunnumbered := hnumber.resolve_left (not_not.mpr hrunning)
    simp [hunnumbered]
  · refine .inl ⟨run_suspendBootstrap, nofun, fun hlive _ => ?_⟩
    have hmissing := hclient.resolve_left (by simp [hlive])
    simp [hmissing]
  · exact .inl ⟨run_suspendBootstrap, nofun, fun _ _ => by simp [hstops]⟩
  refine .inr ⟨?_, ?_⟩
  · split
    · rfl
    · split_ifs <;> rfl
  · rw [not_or, not_not] at hnumber
    rw [not_or] at hclient
    simp [Option.isSome_iff_ne_none, hcontext, hnumber.2, hclient.2, hstops]

section Abort

variable {fate : Fate} {reason : Bytes} {run : Run}

/-- An abort leaves the object as it was, or the generation does not run any more. -/
theorem abort_process (fate : Fate) (reason : Bytes) (run : Run) :
    (abort fate reason run).1.process = run.process ∨
      (abort fate reason run).1.process.state ≠ .running := by
  rw [abort]
  split_ifs
  · unfold abortLiveGeneration
    dsimp only
    split
    · exact .inl rfl
    split
    · exact .inl rfl
    split_ifs
    iterate 2 exact .inl rfl
    split
    iterate 2 exact .inr nofun
  · unfold abortOffline
    dsimp only
    split
    · exact .inl rfl
    split
    · exact .inl rfl
    · exact .inr nofun

/-- With a live generation, the object is as it was exactly where a check fails, and the call says
so. -/
theorem abort_live (hlive : (run.process.live.bind LiveRun.generation).isSome)
    (hrunning : run.process.state = .running) :
    (abortPasses fate reason run = true → (abort fate reason run).1.process.state ≠ .running) ∧
    (abortPasses fate reason run = false → (abort fate reason run).1.process = run.process ∧
      (abort fate reason run).2 ≠ .ok ()) := by
  have hsome : run.process.live.isSome := by
    cases hnone : run.process.live with
    | none => simp [hnone] at hlive
    | some live => rfl
  have hgeneration : ¬(run.process.live.bind LiveRun.generation).isNone = true := by
    rw [Option.isNone_iff_eq_none]
    intro hnone
    rw [hnone] at hlive
    cases hlive
  rw [abort, if_pos hsome, abortLiveGeneration, abortPasses]
  rcases hreason : validateAbortReason reason with error | _
  · exact ⟨nofun, fun _ => ⟨rfl, nofun⟩⟩
  have hstate : failIf (run.process.state ≠ .running ∧ run.process.state ≠ .paused)
      RuntimeError.notAbortable = .ok () := by
    rw [failIf_eq_ok]
    exact fun hother => hother.1 hrunning
  rcases hmetadata : currentMetadata run.process .aborted with error | metadata
  · rw [hstate]
    exact ⟨nofun, fun _ => ⟨rfl, nofun⟩⟩
  rw [hstate]
  cases hrecorded : recordHarnessGenerationStart run.disk run.process.identity fate.suffix
      metadata.generation with
  | error error =>
    dsimp only [Except.mapError, bind, Except.bind]
    rw [hrecorded]
    exact ⟨nofun, fun _ => ⟨rfl, nofun⟩⟩
  | ok disk =>
    dsimp only [Except.mapError, bind, Except.bind]
    rw [hrecorded]
    dsimp only
    rw [if_neg hgeneration]
    cases hstops : fate.stops with
    | false => exact ⟨nofun, fun _ => ⟨rfl, nofun⟩⟩
    | true =>
      rw [if_neg Bool.true_eq_false.mp]
      refine ⟨fun _ => ?_, nofun⟩
      split
      iterate 2 exact nofun

end Abort

/-- A check fails in a running generation, which goes on to run. -/
theorem perform_of_not_passes {call : LifecycleCall} (hadmitting : s.admitting = true)
    (h : call.passes s = false) :
    (call.perform s).2 ≠ .ok () ∧ (call.perform s).1.run.process.state = .running := by
  obtain ⟨hlive, hrunning, -⟩ := of_decide_eq_true hadmitting
  cases call with
  | pause context monitor =>
    rcases pause_cases context monitor s with ⟨hrun, herror, -⟩ | ⟨-, hpasses⟩
    · exact ⟨herror, (congrArg (·.process.state) hrun).trans hrunning⟩
    · rw [h] at hpasses
      cases hpasses
  | abort fate reason =>
    obtain ⟨hprocess, herror⟩ := (abort_live hlive hrunning).2 h
    refine ⟨fun hok => herror (mapError_eq_ok.mp hok), ?_⟩
    exact (congrArg (·.state) hprocess).trans hrunning

/-- The checks pass, and the generation does not run any more. -/
theorem perform_of_passes {call : LifecycleCall} (hadmitting : s.admitting = true)
    (h : call.passes s = true) : (call.perform s).1.run.process.state ≠ .running := by
  obtain ⟨hlive, hrunning, -⟩ := of_decide_eq_true hadmitting
  cases call with
  | pause context monitor =>
    rcases pause_cases context monitor s with ⟨-, -, hfails⟩ | ⟨hpaused, -⟩
    · rw [hfails hlive hrunning] at h
      cases h
    · rw [LifecycleCall.perform, hpaused]
      exact nofun
  | abort fate reason => exact (abort_live hlive hrunning).1 h

theorem running_of_perform {call : LifecycleCall}
    (h : (call.perform s).1.run.process.state = .running) : s.run.process.state = .running := by
  cases call with
  | pause context monitor =>
    rcases pause_cases context monitor s with ⟨hrun, -, -⟩ | ⟨hpaused, -⟩
    · exact (congrArg (·.process.state) hrun).symm.trans h
    · rw [LifecycleCall.perform, hpaused] at h
      cases h
  | abort fate reason =>
    rcases abort_process fate reason s.run with hprocess | hother
    · exact (congrArg (·.state) hprocess).symm.trans h
    · exact absurd h hother

/-- **Which calls leave the admission of jobs as it was**: all of them where no job can be admitted,
and otherwise those that pass their checks. -/
theorem admissionKept_iff (s : Supervised) (call : LifecycleCall) :
    AdmissionKept s call ↔ (s.admitting = true → call.passes s = true) := by
  constructor
  · intro hkept hadmitting
    by_contra hfails
    obtain ⟨herror, hstate⟩ := perform_of_not_passes hadmitting (Bool.not_eq_true _ ▸ hfails)
    have hafter := hkept herror hstate (not_suspended_of_admitting hadmitting)
    rw [suspended_perform, suspended_suspendBootstrap hadmitting] at hafter
    cases hafter
  · intro h herror hstate hopen
    rw [suspended_perform]
    refine suspendBootstrap_of_not_admitting ?_ (running_of_perform hstate) hopen
    by_contra hadmitting
    rw [Bool.not_eq_false] at hadmitting
    exact perform_of_passes hadmitting (h hadmitting) hstate

/-- A run whose first generation is live, with a service that may admit jobs. -/
def supervisedFirst : Supervised :=
  ⟨performAll (newExperiment none 0 none) [.reopen (some none), .start fortunate], true,
    some ⟨false, false, false, none⟩⟩

/-- The monitor fails to stop the guest: `Pause` says so and the generation runs on, but the service
stays suspended, and the job of the next tool call is refused. -/
theorem pause_keeps_suspended :
    supervisedFirst.suspended = false ∧
      (LifecycleCall.perform supervisedFirst (.pause true ⟨false, none⟩)).2 = .error .monitor ∧
      (LifecycleCall.perform supervisedFirst
        (.pause true ⟨false, none⟩)).1.run.process.state = .running ∧
      ¬AdmissionKept supervisedFirst (.pause true ⟨false, none⟩) ∧
      (LifecycleCall.perform supervisedFirst (.pause true ⟨false, none⟩)).1.bootstrap.any
        (fun service => (service.activate true).admits) = false ∧
      supervisedFirst.bootstrap.any (fun service => (service.activate true).admits) = true := by
  refine ⟨by decide +kernel, by decide +kernel, by decide +kernel, fun hkept => ?_,
    by decide +kernel, by decide +kernel⟩
  have hafter := hkept (by decide +kernel) (by decide +kernel) (by decide +kernel)
  revert hafter
  decide +kernel

end Carcer.Experiment
